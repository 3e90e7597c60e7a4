import Sable.InitrdPlacement

/-!
# The memory map for the kernel

The loader's memory map has room for 256 entries and the one in the boot parameters for 128.
The copy does not look at the smaller number.  The table of the loader lies in front of every
place where the boot parameters can be, so it stays as it is while it is copied.
-/

namespace Sable

open ByteMemory BigEndian HaltingProgram

section Entries

variable {mem : Mem} {addr dst : UInt32} {entry : MemoryMap} {len : Nat} {bytes : Nat → UInt8}

/-- The address, the size and the type of an entry are found one behind the other. -/
structure HoldsEntry (mem : Mem) (addr : UInt32) (entry : MemoryMap) : Prop where
  base : word64 mem addr 0 = entry.baseAddr
  length : word64 mem (addr + 8) 0 = entry.length
  type : word32 mem (addr + 16) 0 = entry.type

theorem toNat_add_of_lt {offset : UInt32} (room : addr.toNat + offset.toNat < 2 ^ 32) :
    (addr + offset).toNat = addr.toNat + offset.toNat := by
  rw [UInt32.toNat_add, Nat.mod_eq_of_lt room]

/-- A store to another range. -/
theorem HoldsEntry.store (holds : HoldsEntry mem addr entry) (top : addr.toNat + 20 ≤ 2 ^ 32)
    (room : dst.toNat + len ≤ 2 ^ 32)
    (apart : addr.toNat + 20 ≤ dst.toNat ∨ dst.toNat + len ≤ addr.toNat) :
    HoldsEntry (storeFrom mem dst len bytes) addr entry := by
  have second : (addr + 8).toNat = addr.toNat + 8 :=
    @toNat_add_of_lt _ 8 (by change addr.toNat + 8 < 2 ^ 32; omega)
  have third : (addr + 16).toNat = addr.toNat + 16 :=
    @toNat_add_of_lt _ 16 (by change addr.toNat + 16 < 2 ^ 32; omega)
  refine ⟨?_, ?_, ?_⟩
  · rw [word64_storeFrom_outside (by rw [distance]; omega) (by rw [distance]; omega)]
    exact holds.base
  · rw [word64_storeFrom_outside (by rw [distance, second]; omega)
      (by rw [distance, second]; omega)]
    exact holds.length
  · rw [word32_storeFrom_outside (by rw [distance, third]; omega)
      (by rw [distance, third]; omega)]
    exact holds.type

/-- Memory when an entry has been stored field by field. -/
def storedEntry (mem : Mem) (dst : UInt32) (entry : MemoryMap) : Mem :=
  storeFrom (storeFrom (storeFrom mem dst 8 fun i => (le64 entry.baseAddr).getD i 0)
    (dst + 8) 8 fun i => (le64 entry.length).getD i 0)
    (dst + 16) 4 fun i => (le32 entry.type).getD i 0

theorem holdsEntry_storedEntry (top : dst.toNat + 20 ≤ 2 ^ 32) :
    HoldsEntry (storedEntry mem dst entry) dst entry := by
  have second : (dst + 8).toNat = dst.toNat + 8 :=
    @toNat_add_of_lt _ 8 (by change dst.toNat + 8 < 2 ^ 32; omega)
  have third : (dst + 16).toNat = dst.toNat + 16 :=
    @toNat_add_of_lt _ 16 (by change dst.toNat + 16 < 2 ^ 32; omega)
  have first := dst.toNat_lt
  refine ⟨?_, ?_, word32_storeFrom_self entry.type⟩
  · rw [storedEntry, word64_storeFrom_outside (by rw [distance, third]; omega)
      (by rw [distance, third]; omega), word64_storeFrom_outside
      (by rw [distance, second]; omega) (by rw [distance, second]; omega)]
    exact word64_storeFrom_self entry.baseAddr
  · rw [storedEntry, word64_storeFrom_outside (by rw [distance, second, third]; omega)
      (by rw [distance, second, third]; omega)]
    exact word64_storeFrom_self entry.length

theorem HoldsEntry.storedEntry {other : MemoryMap} (holds : HoldsEntry mem addr entry)
    (top : addr.toNat + 20 ≤ 2 ^ 32) (room : dst.toNat + 20 ≤ 2 ^ 32)
    (apart : addr.toNat + 20 ≤ dst.toNat ∨ dst.toNat + 20 ≤ addr.toNat) :
    HoldsEntry (storedEntry mem dst other) addr entry := by
  have second : (dst + 8).toNat = dst.toNat + 8 :=
    @toNat_add_of_lt _ 8 (by change dst.toNat + 8 < 2 ^ 32; omega)
  have third : (dst + 16).toNat = dst.toNat + 16 :=
    @toNat_add_of_lt _ 16 (by change dst.toNat + 16 < 2 ^ 32; omega)
  exact ((holds.store top (by omega) (by omega)).store top (by omega) (by omega)).store top
    (by omega) (by omega)

/-- The fields of an entry behind its size word. -/
theorem HoldsEntry.fields {p : UInt32} (holds : HoldsEntry mem (p + 4) entry) :
    word64 mem p 4 = entry.baseAddr ∧ word64 mem p 12 = entry.length ∧
      word32 mem p 20 = entry.type := by
  refine ⟨?_, ?_, ?_⟩
  · rw [← holds.base, word64_add]
    rfl
  · rw [← holds.length, word64_add, word64_add]
    rfl
  · rw [← holds.type, word32_add, word32_add]
    rfl

end Entries

section Loop

variable {m : LinuxMachine} {entry : MemoryMap} {e820Map last p dst : UInt32} {fuel i : Nat}

/-- The ranges that are written for an entry. -/
def entryWrites (dst : UInt32) : List Access :=
  [⟨dst + 16, 4⟩, ⟨dst + 8, 8⟩, ⟨dst, 8⟩]

/-- The machine when an entry has been copied. -/
def LinuxMachine.copied (m : LinuxMachine) (dst : UInt32) (entry : MemoryMap) : LinuxMachine :=
  { m with mem := storedEntry m.mem dst entry, mapWrites := entryWrites dst ++ m.mapWrites }

theorem length_le64 (quad : UInt64) : (le64 quad).length = 8 :=
  rfl

theorem mapStore_run (addr : UInt32) (bytes : List UInt8) (m : LinuxMachine) :
    mapStore addr bytes m = .ok ()
      { m with
        mem := storeFrom m.mem addr bytes.length fun i => bytes.getD i 0
        mapWrites := ⟨addr, bytes.length⟩ :: m.mapWrites } :=
  rfl

theorem copyMapLoop_step (inside : p < last) (source : HoldsEntry m.mem (p + 4) entry)
    (top : (p + 4).toNat + 20 ≤ 2 ^ 32) (slot : e820Map + UInt32.ofNat (20 * i) = dst)
    (room : dst.toNat + 20 ≤ 2 ^ 32) (apart : (p + 4).toNat + 20 ≤ dst.toNat) :
    copyMapLoop e820Map last (fuel + 1) p i m =
      copyMapLoop e820Map last fuel (p + 24) (i + 1) (m.copied dst entry) := by
  have second : (dst + 8).toNat = dst.toNat + 8 :=
    @toNat_add_of_lt _ 8 (by change dst.toNat + 8 < 2 ^ 32; omega)
  have between := @HoldsEntry.store m.mem (p + 4) dst entry 8
    (fun i => (le64 entry.baseAddr).getD i 0) source top (by omega) (by omega)
  have late := @HoldsEntry.store _ (p + 4) (dst + 8) entry 8
    (fun i => (le64 entry.length).getD i 0) between top (by omega) (by omega)
  have base := source.fields.1
  have length := between.fields.2.1
  have type := late.fields.2.2
  rw [copyMapLoop, if_pos inside, slot, Prog.bind_get, Prog.bind_ok (mapStore_run _ _ _),
    Prog.bind_get, Prog.bind_ok (mapStore_run _ _ _), Prog.bind_get,
    Prog.bind_ok (mapStore_run _ _ _)]
  dsimp only
  rw [base, length_le64, length, length_le64, type]
  rfl

end Loop

section Table

variable {table : E820Table} {bootParams : UInt32} {m : LinuxMachine} {i : Nat}

/-- The entries of the loader's table, which starts at `TBOOT_E820_COPY_ADDR`. -/
def tableEntry (i : Nat) : UInt32 :=
  0x68000 + UInt32.ofNat (24 * i)

/-- The entries of `e820_map`. -/
def mapEntry (bootParams : UInt32) (i : Nat) : UInt32 :=
  bootParams + 0x2D0 + UInt32.ofNat (20 * i)

/-- Where boot parameters can be: behind the loader's low memory and below the last page. -/
structure BehindTable (bootParams : UInt32) : Prop where
  low : 0x69800 ≤ bootParams.toNat
  high : bootParams.toNat + 0x2000 ≤ 2 ^ 32

theorem toNat_tableEntry (small : i ≤ 256) : (tableEntry i).toNat = 0x68000 + 24 * i := by
  have start : (0x68000 : UInt32).toNat = 0x68000 := rfl
  rw [tableEntry, UInt32.toNat_add, start,
    UInt32.toNat_ofNat_of_lt' (by simp only [UInt32.size]; omega)]
  omega

theorem toNat_mapEntry (behind : BehindTable bootParams) (small : i ≤ 256) :
    (mapEntry bootParams i).toNat = bootParams.toNat + 0x2D0 + 20 * i := by
  have start : (0x2D0 : UInt32).toNat = 0x2D0 := rfl
  have high := behind.high
  rw [mapEntry, UInt32.toNat_add, UInt32.toNat_add, start,
    UInt32.toNat_ofNat_of_lt' (by simp only [UInt32.size]; omega)]
  omega

theorem toNat_tableEntry_field (small : i ≤ 256) :
    (tableEntry i + 4).toNat = 0x68000 + 24 * i + 4 := by
  have field : (4 : UInt32).toNat = 4 := rfl
  have start := toNat_tableEntry small
  rw [UInt32.toNat_add, start, field]
  omega

theorem tableEntry_succ (i : Nat) : tableEntry i + 24 = tableEntry (i + 1) := by
  rw [tableEntry, tableEntry, UInt32.add_assoc, Nat.mul_add_one, UInt32.ofNat_add]
  rfl

/-- The state of the copy in front of entry `i`. -/
structure MapCopied (table : E820Table) (bootParams : UInt32) (i : Nat) (m : LinuxMachine) :
    Prop where
  source : ∀ j < table.nrMap, HoldsEntry m.mem (tableEntry j + 4) (table.map j)
  stored : ∀ j < i, HoldsEntry m.mem (mapEntry bootParams j) (table.map j)
  writes : ∀ access, access ∈ m.mapWrites ↔
    ∃ j < i, access ∈ entryWrites (mapEntry bootParams j)

theorem MapCopied.step (behind : BehindTable bootParams) (capacity : table.nrMap ≤ 256)
    (copied : MapCopied table bootParams i m) (more : i < table.nrMap) :
    MapCopied table bootParams (i + 1) (m.copied (mapEntry bootParams i) (table.map i)) := by
  have low := behind.low
  have high := behind.high
  have slot := toNat_mapEntry behind (by omega : i ≤ 256)
  constructor
  · intro j inside
    have place := toNat_tableEntry_field (by omega : j ≤ 256)
    exact (copied.source j inside).storedEntry (by omega) (by omega) (by omega)
  · intro j inside
    have place := toNat_mapEntry behind (by omega : j ≤ 256)
    rcases Nat.lt_succ_iff_lt_or_eq.mp inside with earlier | rfl
    · exact (copied.stored j earlier).storedEntry (by omega) (by omega) (by omega)
    · exact holdsEntry_storedEntry (by omega)
  · intro access
    rw [LinuxMachine.copied, List.mem_append, copied.writes]
    constructor
    · rintro (here | ⟨j, earlier, member⟩)
      · exact ⟨i, Nat.lt_succ_self i, here⟩
      · exact ⟨j, Nat.lt_succ_of_lt earlier, member⟩
    · rintro ⟨j, inside, member⟩
      rcases Nat.lt_succ_iff_lt_or_eq.mp inside with earlier | rfl
      · exact .inr ⟨j, earlier, member⟩
      · exact .inl member

/-- The loop goes through the whole table, whatever there is room for. -/
theorem copyMapLoop_run (behind : BehindTable bootParams) (capacity : table.nrMap ≤ 256)
    {remaining fuel : Nat} (enough : remaining < fuel) (rest : i + remaining = table.nrMap)
    (copied : MapCopied table bootParams i m) :
    ∃ reached, copyMapLoop (bootParams + 0x2D0) (tableEntry table.nrMap) fuel (tableEntry i) i m =
        .ok table.nrMap reached ∧ MapCopied table bootParams table.nrMap reached := by
  have last := toNat_tableEntry capacity
  induction remaining generalizing fuel i m with
  | zero =>
      obtain ⟨fuel, rfl⟩ := Nat.exists_eq_add_of_lt enough
      obtain rfl : i = table.nrMap := rest
      refine ⟨m, ?_, copied⟩
      rw [copyMapLoop, if_neg (UInt32.lt_irrefl _)]
      rfl
  | succ remaining ih =>
      obtain ⟨fuel, rfl⟩ : ∃ less, fuel = less + 1 := ⟨fuel - 1, by omega⟩
      have here := toNat_tableEntry (by omega : i ≤ 256)
      have field := toNat_tableEntry_field (by omega : i ≤ 256)
      have slot := toNat_mapEntry behind (by omega : i ≤ 256)
      have low := behind.low
      have high := behind.high
      have inside : tableEntry i < tableEntry table.nrMap :=
        UInt32.lt_iff_toNat_lt.mpr (by omega)
      rw [copyMapLoop_step inside (copied.source i (by omega)) (by omega) rfl (by
        change (mapEntry bootParams i).toNat + 20 ≤ _; omega) (by
        change _ ≤ (mapEntry bootParams i).toNat; omega), tableEntry_succ]
      exact ih (by omega) (by omega) (copied.step behind capacity (by omega))

/-- The writes stay in the map exactly if there is room for the entries. -/
theorem MapCopied.inside_iff (capacity : table.nrMap ≤ 256)
    (copied : MapCopied table bootParams table.nrMap m) :
    (∀ access ∈ m.mapWrites, access.Among (bootParams + 0x2D0) (128 * 20)) ↔
      table.nrMap ≤ 128 := by
  have offset {k : UInt32} : bootParams + 0x2D0 + k - (bootParams + 0x2D0) = k := by
    rw [UInt32.add_comm (bootParams + 0x2D0), UInt32.add_sub_cancel]
  have place {j : Nat} (small : j ≤ 256) : (UInt32.ofNat (20 * j)).toNat = 20 * j :=
    UInt32.toNat_ofNat_of_lt' (by simp only [UInt32.size]; omega)
  constructor
  · intro inside
    by_contra large
    have written : (⟨mapEntry bootParams 128, 8⟩ : Access) ∈ m.mapWrites :=
      (copied.writes _).mpr ⟨128, by omega, by simp [entryWrites]⟩
    have among := inside _ written
    rw [Access.Among, mapEntry, offset, place (by decide)] at among
    change 20 * 128 + 8 ≤ 128 * 20 at among
    omega
  · intro room access written
    obtain ⟨j, earlier, member⟩ := (copied.writes access).mp written
    have start := place (by omega : j ≤ 256)
    simp only [entryWrites, List.mem_cons, List.not_mem_nil, or_false] at member
    rcases member with rfl | rfl | rfl
    · rw [Access.Among, mapEntry, UInt32.add_assoc (bootParams + 0x2D0), offset,
        toNat_add_of_lt (by change _ + 16 < _; omega), start]
      change 20 * j + 16 + 4 ≤ _
      omega
    · rw [Access.Among, mapEntry, UInt32.add_assoc (bootParams + 0x2D0), offset,
        toNat_add_of_lt (by change _ + 8 < _; omega), start]
      change 20 * j + 8 + 8 ≤ _
      omega
    · rw [Access.Among, mapEntry, offset, start]
      change 20 * j + 8 ≤ _
      omega

end Table

section Finish

variable {bootParams : UInt32} {globals : LinuxGlobals} {args : LinuxArgs}

theorem word8_storeFrom_outside {mem : Mem} {addr ptr : UInt32} {len i : Nat}
    {bytes : Nat → UInt8} (outside : len ≤ distance addr ptr + i)
    (room : distance addr ptr + i < 2 ^ 32) :
    word8 (storeFrom mem addr len bytes) ptr i = word8 mem ptr i :=
  flat_storeFrom_outside outside room

theorem word8_storeFrom_behind {mem : Mem} {addr ptr : UInt32} {len : Nat} {bytes : Nat → UInt8}
    (outside : len ≤ distance addr ptr) (room : distance addr ptr < 2 ^ 32) :
    word8 (storeFrom mem addr len bytes) ptr 0 = word8 mem ptr 0 := by
  obtain ⟨i, zero⟩ : ∃ i, i = 0 := ⟨0, rfl⟩
  rw [← zero]
  exact word8_storeFrom_outside (by omega) (by omega)

/-- The entries of the map and their number stay as they are. -/
structure KeepsMap (bootParams : UInt32) (before after : LinuxMachine) : Prop where
  entries : ∀ addr entry, bootParams.toNat + 0x2D0 ≤ addr.toNat → addr.toNat + 20 ≤ 2 ^ 32 →
    HoldsEntry before.mem addr entry → HoldsEntry after.mem addr entry
  count : word8 after.mem (bootParams + 0x1E8) 0 = word8 before.mem (bootParams + 0x1E8) 0
  writes : after.mapWrites = before.mapWrites

theorem KeepsMap.refl (m : LinuxMachine) : KeepsMap bootParams m m :=
  ⟨fun _ _ _ _ holds => holds, rfl, rfl⟩

theorem KeepsMap.trans {first second third : LinuxMachine} (one : KeepsMap bootParams first second)
    (two : KeepsMap bootParams second third) : KeepsMap bootParams first third :=
  ⟨fun addr entry low high holds => two.entries addr entry low high
      (one.entries addr entry low high holds),
    two.count.trans one.count, two.writes.trans one.writes⟩

theorem toNat_field (behind : BehindTable bootParams) {offset : UInt32}
    (inside : offset.toNat ≤ 0x2D0) :
    (bootParams + offset).toNat = bootParams.toNat + offset.toNat := by
  have high := behind.high
  exact toNat_add_of_lt (by omega)

/-- The fields in front of the number of entries. -/
theorem linuxStore_keepsMap (behind : BehindTable bootParams) {offset : UInt32}
    {bytes : List UInt8} (inside : offset.toNat + bytes.length ≤ 0x1E8) :
    Prog.Steps (KeepsMap bootParams) (linuxStore (bootParams + offset) bytes) := by
  have high := behind.high
  have place := toNat_field behind (by omega : offset.toNat ≤ 0x2D0)
  have order : offset ≤ 0x1E8 := by
    rw [UInt32.le_iff_toNat_le]
    change _ ≤ 0x1E8
    omega
  have apart := @distance_offsets bootParams offset 0x1E8 order
  rw [show (0x1E8 : UInt32).toNat = 0x1E8 from rfl] at apart
  apply Prog.Steps.modify
  intro m
  refine ⟨fun addr entry low top holds => ?_, ?_, rfl⟩
  · dsimp only
    exact holds.store top (by omega) (by omega)
  · dsimp only
    exact word8_storeFrom_behind (by omega) (by omega)

theorem finishBootParams_keepsMap (behind : BehindTable bootParams) :
    Prog.Steps (KeepsMap bootParams) (finishBootParams globals args bootParams) := by
  have store {offset : UInt32} {bytes : List UInt8}
      (inside : offset.toNat + bytes.length ≤ 0x1E8) :=
    linuxStore_keepsMap behind inside
  have bind {program : Prog Halt LinuxMachine Unit} {next : Unit → Prog Halt LinuxMachine Unit}
      (first : Prog.Steps (KeepsMap bootParams) program)
      (second : ∀ value, Prog.Steps (KeepsMap bootParams) (next value)) :
      Prog.Steps (KeepsMap bootParams) (program >>= next) :=
    Prog.Steps.bind KeepsMap.trans first second
  refine bind (store (by decide)) fun _ => bind (store (by decide)) fun _ => ?_
  refine bind (store (by decide)) fun _ => bind (store (by decide)) fun _ => ?_
  refine bind (store (by decide)) fun _ => bind (store (by decide)) fun _ => ?_
  exact .ite (store (by rw [length_le64]; decide)) (.ret KeepsMap.refl _)

theorem finishBootParams_run (m : LinuxMachine) :
    finishBootParams globals args bootParams m =
      .ok () (finishBootParams globals args bootParams m).state := by
  cases measured : args.isMeasuredLaunch with
  | false =>
      simp only [finishBootParams, measured]
      rfl
  | true =>
      simp only [finishBootParams, measured]
      rfl

end Finish

section Handover

variable {globals : LinuxGlobals} {args : LinuxArgs} {table : E820Table} {bootParams mbi : UInt32}
  {m : LinuxMachine}

/-- The multiboot information has the loader's own table as its memory map. -/
structure DescribesMap (mem : Mem) (mbi : UInt32) (table : E820Table) : Prop where
  present : mbiHas mem mbi mbiFlagMemmap = true
  start : word32 mem mbi 48 = 0x68000
  length : word32 mem mbi 44 = UInt32.ofNat (24 * table.nrMap)
  capacity : table.nrMap ≤ maxE820Entries
  entries : ∀ j < table.nrMap, HoldsEntry mem (tableEntry j + 4) (table.map j)

/-- The kernel finds the table in its boot parameters, and nothing but `e820_map` was written
for it. -/
structure HandedOver (table : E820Table) (bootParams : UInt32) (reached : LinuxMachine) :
    Prop where
  count : (word8 reached.mem (bootParams + 0x1E8) 0).toNat = table.nrMap
  entries : ∀ j < table.nrMap, HoldsEntry reached.mem (mapEntry bootParams j) (table.map j)
  inside : ∀ access ∈ reached.mapWrites, access.Among (bootParams + 0x2D0) (128 * 20)

theorem handOverMap_run (behind : BehindTable bootParams)
    (describes : DescribesMap m.mem globals.mbi table) (fresh : m.mapWrites = []) :
    ∃ reached, handOverMap globals bootParams m = .ok () reached ∧
      word8 reached.mem (bootParams + 0x1E8) 0 = UInt8.ofNat table.nrMap ∧
      MapCopied table bootParams table.nrMap reached := by
  have capacity : table.nrMap ≤ 256 := describes.capacity
  have begins : MapCopied table bootParams 0 m := by
    refine ⟨describes.entries, fun j below => absurd below (Nat.not_lt_zero j), fun access => ?_⟩
    rw [fresh]
    exact ⟨fun member => absurd member List.not_mem_nil,
      fun ⟨j, below, _⟩ => absurd below (Nat.not_lt_zero j)⟩
  obtain ⟨copied, run, final⟩ := @copyMapLoop_run table bootParams m 0 behind capacity table.nrMap
    (2 ^ 32) (by omega) (Nat.zero_add _) begins
  have last : word32 m.mem globals.mbi 48 + word32 m.mem globals.mbi 44 =
      tableEntry table.nrMap := by
    rw [describes.start, describes.length, tableEntry]
  have first : word32 m.mem globals.mbi 48 = tableEntry 0 := describes.start
  rw [handOverMap, Prog.bind_get, if_pos describes.present, last, first, Prog.bind_ok run]
  have high := behind.high
  have low := behind.low
  have place := @toNat_field bootParams behind 0x1E8 (by decide)
  rw [show (0x1E8 : UInt32).toNat = 0x1E8 from rfl] at place
  refine ⟨_, rfl, ?_, ?_, ?_, final.writes⟩
  · dsimp only
    exact word8_storeFrom_self (Nat.lt_succ_self 0) (Nat.two_pow_pos 32)
  · intro j inside
    have source := toNat_tableEntry_field (by omega : j ≤ 256)
    dsimp only
    exact (final.source j inside).store (by omega) (by rw [place, List.length_singleton]; omega)
      (by omega)
  · intro j inside
    have slot := toNat_mapEntry behind (by omega : j ≤ 256)
    dsimp only
    exact (final.stored j inside).store (by omega) (by rw [place, List.length_singleton]; omega)
      (by rw [place, List.length_singleton]; omega)

end Handover

section LowMemory

variable {globals : LinuxGlobals} {args : LinuxArgs} {placement : KernelPlacement}
  {addr src : UInt32} {len : Nat}

/-- The memory in front of every place of the real-mode part stays as it is. -/
def KeepsLow (before after : LinuxMachine) : Prop :=
  ∀ a < 0x69C00, after.mem a = before.mem a

theorem KeepsLow.refl (m : LinuxMachine) : KeepsLow m m :=
  fun _ _ => rfl

theorem KeepsLow.trans {first second third : LinuxMachine} (one : KeepsLow first second)
    (two : KeepsLow second third) : KeepsLow first third :=
  fun a low => (two a low).trans (one a low)

/-- The range is above the low memory. -/
def Above (addr : UInt32) (len : Nat) : Prop :=
  0x69C00 ≤ addr.toNat ∧ addr.toNat + len ≤ 2 ^ 32

theorem Above.outside (above : Above addr len) {a : Nat} (low : a < 0x69C00) :
    ¬ (a + 2 ^ 32 - addr.toNat) % 2 ^ 32 < len := by
  obtain ⟨start, room⟩ := above
  omega

/-- No step of the program changes the low memory. -/
def LeavesLow {α : Type} (program : Prog Halt LinuxMachine α) : Prop :=
  Prog.Steps KeepsLow program

theorem LeavesLow.ret {α : Type} (value : α) :
    LeavesLow (pure value : Prog Halt LinuxMachine α) :=
  KeepsLow.refl

theorem LeavesLow.halt {α : Type} (reason : Halt) :
    LeavesLow (Prog.halt reason : Prog Halt LinuxMachine α) :=
  KeepsLow.refl

theorem LeavesLow.get : LeavesLow Prog.get :=
  KeepsLow.refl

theorem LeavesLow.bind {α β : Type} {program : Prog Halt LinuxMachine α}
    {next : α → Prog Halt LinuxMachine β} (first : LeavesLow program)
    (second : ∀ value, LeavesLow (next value)) : LeavesLow (program >>= next) :=
  Prog.Steps.bind KeepsLow.trans first second

theorem LeavesLow.ite {α : Type} {condition : Prop} [Decidable condition]
    {yes no : Prog Halt LinuxMachine α} (first : LeavesLow yes) (second : LeavesLow no) :
    LeavesLow (if condition then yes else no) :=
  Prog.Steps.ite first second

theorem linuxStore_leavesLow {bytes : List UInt8} (above : Above addr bytes.length) :
    LeavesLow (linuxStore addr bytes) :=
  fun _ _ low => if_neg (above.outside low)

theorem linuxClear_leavesLow (above : Above addr len) : LeavesLow (linuxClear addr len) :=
  fun _ _ low => if_neg (above.outside low)

theorem linuxCopy_leavesLow {size : UInt32} (above : Above addr size.toNat) :
    LeavesLow (linuxCopy addr src size) :=
  fun _ _ low => if_neg (above.outside low)

theorem imageRead_leavesLow : LeavesLow (imageRead addr len) :=
  fun _ _ _ => rfl

theorem imageByte_leavesLow : LeavesLow (imageByte addr) :=
  imageRead_leavesLow.bind fun _ => LeavesLow.get.bind fun _ => .ret _

theorem imageHalf_leavesLow : LeavesLow (imageHalf addr) :=
  imageRead_leavesLow.bind fun _ => LeavesLow.get.bind fun _ => .ret _

theorem imageWord_leavesLow : LeavesLow (imageWord addr) :=
  imageRead_leavesLow.bind fun _ => LeavesLow.get.bind fun _ => .ret _

theorem imageCopy_leavesLow {size : UInt32} (above : Above addr size.toNat) :
    LeavesLow (imageCopy addr src size) :=
  imageRead_leavesLow.bind fun _ => linuxCopy_leavesLow above

/-- The fields of a range above the low memory. -/
theorem Above.field {offset : UInt32} {size : Nat} (above : Above addr size)
    (inside : offset.toNat + len ≤ size) (some : 0 < len) : Above (addr + offset) len := by
  obtain ⟨start, room⟩ := above
  have place := @toNat_add_of_lt addr offset (by omega)
  constructor <;> omega

theorem Above.stores {offset : UInt32} {bytes : List UInt8} {size : Nat} (above : Above addr size)
    (len : Nat) (length : bytes.length = len) (inside : offset.toNat + len ≤ size)
    (some : 0 < len) : LeavesLow (linuxStore (addr + offset) bytes) :=
  linuxStore_leavesLow (length ▸ above.field inside some)

theorem prepareHeader_leavesLow {hdr : UInt32} (above : Above hdr 119) :
    LeavesLow (prepareHeader globals hdr) := by
  have sectors : Above hdr 1 := ⟨above.1, by have room := above.2; omega⟩
  have options : LeavesLow (linuxParseCmdline globals) := by
    refine LeavesLow.get.bind fun m => .ite (.ret _) ?_
    cases cstring m.mem (getCmdline m.mem globals.mbi) with
    | none => exact .halt _
    | some string => exact .ret _
  refine imageByte_leavesLow.bind fun _ => .bind
    (.ite (linuxStore_leavesLow sectors) (.ret _)) fun _ => imageByte_leavesLow.bind fun _ =>
    .ite (.ret _) (options.bind fun options => ?_)
  refine (above.stores 2 rfl (by decide) (by decide)).bind fun _ => ?_
  refine imageWord_leavesLow.bind fun _ => .ite (.ret _) ?_
  refine imageHalf_leavesLow.bind fun _ => .ite (.ret _) ?_
  refine (above.stores 1 rfl (by decide) (by decide)).bind fun _ =>
    imageByte_leavesLow.bind fun _ => ?_
  exact (above.stores 1 rfl (by decide) (by decide)).bind fun _ =>
    (above.stores 2 rfl (by decide) (by decide)).bind fun _ => .ret _

theorem placeLinuxImage_leavesLow (above : Above args.hdr 119) (none : args.initrdSize = 0) :
    LeavesLow (placeLinuxImage globals args) := by
  have initrd (options : LinuxOptions) : LeavesLow (placeInitrd globals args options) := by
    rw [placeInitrd, if_neg (by rw [none]; decide)]
    exact .ret _
  have prepare : LeavesLow (prepareLinuxImage globals args) := by
    refine .ite (.ret _) ((prepareHeader_leavesLow above).bind fun options => ?_)
    cases options with
    | none => exact .ret _
    | some options =>
        refine (initrd options).bind fun initrdBase => ?_
        cases initrdBase with
        | none => exact .ret _
        | some initrdBase =>
            exact (above.stores 4 rfl (by decide) (by decide)).bind fun _ =>
              (above.stores 4 rfl (by decide) (by decide)).bind fun _ => .ret _
  have relocate (ctxEnd : UInt32) : LeavesLow (relocateKernel globals args.hdr ctxEnd) :=
    imageWord_leavesLow.bind fun _ => .ite (.ret _) <|
      (above.stores 4 rfl (by decide) (by decide)).bind fun _ => .ret _
  have base (size : UInt32) : LeavesLow (protectedModeBase globals args.hdr size) := by
    refine LeavesLow.get.bind fun m => imageByte_leavesLow.bind fun relocatable => .ite ?_ ?_
    · cases getLoaderCtxEnd m.mem globals.mbi with
      | none => exact .halt _
      | some ctxEnd => exact relocate ctxEnd
    · exact imageByte_leavesLow.bind fun _ => .ret _
  have place : LeavesLow (placeKernel globals args) :=
    LeavesLow.get.bind fun _ => imageByte_leavesLow.bind fun _ =>
      .ite (.ret _) ((base _).bind fun _ => .ret _)
  exact prepare.bind fun _ => .ite place (.ret _)

theorem le_realModeBase (globals : LinuxGlobals) (mem : Mem) :
    0x69C00 ≤ (realModeBase globals mem).toNat ∧ (realModeBase globals mem).toNat ≤ 0x90000 := by
  have clamp (base : UInt32) :
      0x69C00 ≤ (if (if base < 0x69C00 then 0x69C00 else base) > 0x90000 then 0x90000
        else if base < 0x69C00 then 0x69C00 else base).toNat ∧
      (if (if base < 0x69C00 then 0x69C00 else base) > 0x90000 then 0x90000
        else if base < 0x69C00 then 0x69C00 else base).toNat ≤ 0x90000 := by
    by_cases low : base < 0x69C00
    · rw [if_pos low]
      decide
    · rw [if_neg low]
      by_cases high : base > 0x90000
      · rw [if_pos high]
        decide
      · rw [if_neg high]
        exact ⟨UInt32.le_iff_toNat_le.mp (UInt32.not_lt.mp low),
          UInt32.le_iff_toNat_le.mp (UInt32.not_lt.mp high)⟩
  exact clamp _

/-- The real-mode part, the command line and the boot parameters are between the loader's low
memory and the end of conventional memory. -/
theorem KernelPlaced.low {mem : Mem} (kernel : KernelPlaced globals args mem placement) :
    0x69C00 ≤ placement.realModeBase.toNat ∧ placement.realModeBase.toNat ≤ 0x90000 ∧
      placement.realModeSize.toNat ≤ 0x8000 ∧
      placement.bootParams.toNat =
        placement.realModeBase.toNat + placement.realModeSize.toNat := by
  have start := le_realModeBase globals mem
  have size := toNat_headerSetupSize mem args.hdr
  have small := (word8 mem args.hdr 0).toNat_lt
  have room := mt UInt32.lt_iff_toNat_lt.mpr kernel.room
  have page : (0x1000 : UInt32).toNat = 0x1000 := rfl
  have limit : (0x8D00 : UInt32).toNat = 0x8D00 := rfl
  rw [UInt32.toNat_add, page, limit] at room
  rw [KernelPlacement.bootParams, UInt32.toNat_add, kernel.realModeBase, kernel.realModeSize]
  omega

theorem KernelPlaced.behindTable {mem : Mem} (kernel : KernelPlaced globals args mem placement) :
    BehindTable placement.bootParams := by
  obtain ⟨low, high, size, place⟩ := kernel.low
  constructor <;> omega

theorem loadParts_leavesLow {mem : Mem} (above : Above args.hdr 119)
    (kernel : KernelPlaced globals args mem placement)
    (high : Above placement.protectedModeBase placement.protectedModeSize.toNat) :
    LeavesLow (loadParts args placement) := by
  obtain ⟨low, top, size, -⟩ := kernel.low
  exact (above.stores 4 rfl (by decide) (by decide)).bind fun _ => imageRead_leavesLow.bind fun _ =>
    LeavesLow.get.bind fun _ => (imageCopy_leavesLow high).bind fun _ =>
    (imageCopy_leavesLow ⟨low, by omega⟩).bind fun _ => .ret _

theorem setBootParams_leavesLow {mem : Mem} (kernel : KernelPlaced globals args mem placement)
    {header : List UInt8} (length : header.length = 119) :
    LeavesLow (setBootParams globals placement header) := by
  obtain ⟨low, top, size, place⟩ := kernel.low
  have realMode : Above placement.realModeBase 0x9100 := ⟨low, by omega⟩
  have params : Above placement.bootParams 0x1000 := ⟨by omega, by omega⟩
  have line : Above (placement.realModeBase + 0x8D00) 0x400 :=
    realMode.field (by decide) (by decide)
  refine LeavesLow.get.bind fun m => ?_
  dsimp only
  cases cstring m.mem (getCmdline m.mem globals.mbi) with
  | none => exact .halt _
  | some string =>
      have inside : (UInt32.ofNat (min string.length 0x3FF)).toNat ≤ 0x3FF := by
        rw [UInt32.toNat_ofNat_of_lt' (by simp only [UInt32.size]; omega)]
        exact Nat.min_le_right _ _
      refine (linuxClear_leavesLow line).bind fun _ => .bind ?_ fun _ => ?_
      · exact linuxCopy_leavesLow ⟨line.1, by have room := line.2; omega⟩
      · exact (linuxClear_leavesLow params).bind fun _ =>
          params.stores 119 length (by decide) (by decide)

/-- An image that is loaded into the memory above does not change the low memory. -/
theorem loadLinuxImage_keepsLow {m placed before : LinuxMachine}
    {header : List UInt8} (above : Above args.hdr 119) (none : args.initrdSize = 0)
    (accepted : placeLinuxImage globals args m = .ok (some placement) placed)
    (high : Above placement.protectedModeBase placement.protectedModeSize.toNat)
    (loaded : loadLinuxImage globals args m = .ok (some (placement, header)) before) :
    KeepsLow m before := by
  obtain ⟨ready, -, places⟩ := placeLinuxImage_ok accepted
  have kernel := placeKernel_ok places
  have first := @placeLinuxImage_leavesLow globals args above none m
  rw [accepted] at first
  obtain ⟨copied, parts, length⟩ : ∃ copied, loadParts args placement placed =
      .ok copied (partsLoaded args placement placed) ∧ copied.length = 119 :=
    ⟨_, rfl, length_read _ _ _⟩
  have second := loadParts_leavesLow above kernel high placed
  rw [parts] at second
  have third := @setBootParams_leavesLow globals args placement _ kernel copied length
    (partsLoaded args placement placed)
  rw [loadLinuxImage_accepted accepted, Prog.bind_ok parts, Prog.bind_eq_ok] at loaded
  obtain ⟨⟨⟩, reached, run, rest⟩ := loaded
  rw [run] at third
  cases rest
  exact (first.trans second).trans third

end LowMemory

section LoadedMap

variable {globals : LinuxGlobals} {args : LinuxArgs} {placement : KernelPlacement}
  {table : E820Table} {header : List UInt8} {mem : Mem} {before : LinuxMachine}

theorem loadLinuxImage_placed {m : LinuxMachine}
    (loaded : loadLinuxImage globals args m = .ok (some (placement, header)) before) :
    ∃ placed, placeLinuxImage globals args m = .ok (some placement) placed := by
  rw [loadLinuxImage, Prog.bind_eq_ok] at loaded
  obtain ⟨placement?, placed, accepted, rest⟩ := loaded
  cases placement? with
  | none => cases rest
  | some found =>
      rw [Prog.bind_eq_ok] at rest
      obtain ⟨header, copied, -, rest⟩ := rest
      rw [Prog.bind_eq_ok] at rest
      obtain ⟨⟨⟩, stored, -, rest⟩ := rest
      cases rest
      exact ⟨placed, accepted⟩

/-- Nothing is written to the map while the kernel is loaded. -/
theorem loadLinuxImage_mapWrites
    (loaded : loadLinuxImage globals args (.start mem) = .ok (some (placement, header)) before) :
    before.mapWrites = [] := by
  have steps : Recording (fun _ => True) (fun _ => False) (loadLinuxImage globals args) := by
    have check : Recording (fun _ => True) (fun _ => False) (placeLinuxImage globals args) :=
      (placeLinuxImage_recording globals args).mono fun _ _ => trivial
    refine check.bind fun placement? => ?_
    cases placement? with
    | none => exact .ret _
    | some placement =>
        refine (loadParts_recording placement).bind fun header => ?_
        exact (setBootParams_recording globals placement header).bind fun _ => .ret _
  have records := steps (.start mem)
  rw [loaded] at records
  obtain ⟨more, writes, none⟩ := records.mapWrites
  change before.mapWrites = more ++ [] at writes
  rw [writes, List.eq_nil_iff_forall_not_mem.mpr none, List.nil_append]

/-- The map is copied as a whole, so that the writes end in the map exactly if it has room. -/
theorem expandLinuxImage_copied
    (loaded : loadLinuxImage globals args (.start mem) = .ok (some (placement, header)) before)
    (describes : DescribesMap before.mem globals.mbi table) :
    ∃ entry reached, expandLinuxImage globals args (.start mem) = .ok (some entry) reached ∧
      word8 reached.mem (placement.bootParams + 0x1E8) 0 = UInt8.ofNat table.nrMap ∧
      (∀ j < table.nrMap, HoldsEntry reached.mem (mapEntry placement.bootParams j)
        (table.map j)) ∧
      ((∀ access ∈ reached.mapWrites,
          access.Among (placement.bootParams + 0x2D0) (128 * 20)) ↔ table.nrMap ≤ 128) := by
  obtain ⟨placed, accepted⟩ := loadLinuxImage_placed loaded
  obtain ⟨ready, -, places⟩ := placeLinuxImage_ok accepted
  have behind := (placeKernel_ok places).behindTable
  obtain ⟨copied, run, count, map⟩ :=
    @handOverMap_run globals table _ before behind describes (loadLinuxImage_mapWrites loaded)
  have keeps := @finishBootParams_keepsMap placement.bootParams globals args behind copied
  have capacity : table.nrMap ≤ 256 := describes.capacity
  let entry := ofBe32 ((header.drop 35).take 4).reverse
  have finish : (handOverMap globals placement.bootParams >>= fun _ =>
      finishBootParams globals args placement.bootParams >>= fun _ => pure (some entry)) before =
        .ok (some entry) (finishBootParams globals args placement.bootParams copied).state := by
    rw [Prog.bind_ok run, Prog.bind_ok (finishBootParams_run copied)]
    rfl
  refine ⟨entry, (finishBootParams globals args placement.bootParams copied).state, ?_,
    keeps.count.trans count, fun j earlier => ?_, ?_⟩
  · rw [expandLinuxImage, Prog.bind_ok loaded]
    exact finish
  · have slot := toNat_mapEntry behind (by omega : j ≤ 256)
    have high := behind.high
    exact keeps.entries _ _ (by omega) (by omega) (map.stored j earlier)
  · rw [keeps.writes]
    exact map.inside_iff capacity

/-- Of every table that is still there when the kernel is loaded, all that is handed over is the
table exactly if it has no more entries than `e820_map`. -/
theorem expandLinuxImage_map_iff
    (loaded : loadLinuxImage globals args (.start mem) = .ok (some (placement, header)) before)
    (describes : DescribesMap before.mem globals.mbi table) :
    ∃ entry reached, expandLinuxImage globals args (.start mem) = .ok (some entry) reached ∧
      (HandedOver table placement.bootParams reached ↔ table.nrMap ≤ 128) := by
  obtain ⟨entry, reached, run, count, entries, inside⟩ :=
    expandLinuxImage_copied loaded describes
  refine ⟨entry, reached, run, fun handed => inside.mp handed.inside, fun room => ?_⟩
  refine ⟨?_, entries, inside.mpr room⟩
  rw [count, UInt8.toNat_ofNat_of_lt' (by simp only [UInt8.size]; omega)]

end LoadedMap

section Tables

/-- Memory with the entries of a table at `TBOOT_E820_COPY_ADDR`. -/
def storedTable (mem : Mem) (table : E820Table) : Mem :=
  fun a =>
    if 0x68000 ≤ a ∧ a < 0x68000 + 24 * table.nrMap then
      let entry := table.map ((a - 0x68000) / 24)
      (le32 20 ++ le64 entry.baseAddr ++ le64 entry.length ++ le32 entry.type).getD
        ((a - 0x68000) % 24) 0
    else mem a

/-- Memory with an image, multiboot information that has a memory map, and the map. -/
def mappedMemory (table : E820Table) : Mem :=
  storedTable (write (write (linuxMemory 4 1 0x7FFFFFFF 0x1000) 0x9000 (le32 mbiFlagMemmap)) 0x902C
    (le32 (UInt32.ofNat (24 * table.nrMap)) ++ le32 0x68000)) table

variable {mem : Mem} {table : E820Table}

theorem word8_storedTable {j k : Nat} (inside : j < table.nrMap) (capacity : table.nrMap ≤ 256)
    (behind : 4 + k < 24) : word8 (storedTable mem table) (tableEntry j + 4) k =
      (le32 20 ++ le64 (table.map j).baseAddr ++ le64 (table.map j).length ++
        le32 (table.map j).type).getD (4 + k) 0 := by
  have place := toNat_tableEntry_field (by omega : j ≤ 256)
  rw [word8, flat, place, storedTable, Nat.mod_eq_of_lt (by omega), if_pos (by omega)]
  dsimp only
  rw [show 0x68000 + 24 * j + 4 + k - 0x68000 = 24 * j + (4 + k) by omega,
    Nat.mul_add_div (by decide), Nat.div_eq_of_lt behind, Nat.add_zero, Nat.mul_add_mod,
    Nat.mod_eq_of_lt behind]

theorem getD_field (first : List UInt8) {field last : List UInt8} {k : Nat}
    (inside : k < field.length) :
    (first ++ field ++ last).getD (first.length + k) 0 = field.getD k 0 := by
  rw [List.getD_append _ _ _ _ (by rw [List.length_append]; omega),
    List.getD_append_right _ _ _ _ (Nat.le_add_right _ _), Nat.add_sub_cancel_left]

theorem holdsEntry_storedTable {j : Nat} (inside : j < table.nrMap)
    (capacity : table.nrMap ≤ 256) :
    HoldsEntry (storedTable mem table) (tableEntry j + 4) (table.map j) := by
  have byte (k : Nat) (behind : 4 + k < 24) :=
    @word8_storedTable mem table j k inside capacity behind
  have second : (8 : UInt32).toNat = 8 := rfl
  have third : (16 : UInt32).toNat = 16 := rfl
  refine ⟨word64_of_bytes fun k small => ?_, word64_of_bytes fun k small => ?_,
    word32_of_bytes fun k small => ?_⟩
  · rw [byte k (by omega), List.append_assoc]
    exact getD_field (le32 20) small
  · rw [word8_add, second, byte (8 + k) (by omega), ← Nat.add_assoc]
    exact getD_field (le32 20 ++ le64 (table.map j).baseAddr) small
  · rw [Nat.zero_add, word8_add, third, byte (16 + k) (by omega), ← Nat.add_assoc,
      ← List.append_nil (_ ++ le32 (table.map j).type)]
    exact getD_field (le32 20 ++ le64 (table.map j).baseAddr ++ le64 (table.map j).length) small

section Low

variable {m reached : LinuxMachine} {addr : UInt32}

theorem KeepsLow.word32 (keeps : KeepsLow m reached) {i : Nat}
    (below : addr.toNat + i + 4 ≤ 0x69C00) :
    word32 reached.mem addr i = word32 m.mem addr i := by
  apply load32_congr
  intro a lower upper
  rw [flat, flat, Nat.mod_eq_of_lt (by omega)]
  exact keeps a (by omega)

theorem KeepsLow.word64 (keeps : KeepsLow m reached) {i : Nat}
    (below : addr.toNat + i + 8 ≤ 0x69C00) :
    word64 reached.mem addr i = word64 m.mem addr i := by
  rw [Sable.word64, Sable.word64, keeps.word32 (by omega), keeps.word32 (by omega)]

theorem HoldsEntry.low {entry : MemoryMap} (keeps : KeepsLow m reached)
    (below : addr.toNat + 20 ≤ 0x69C00) (holds : HoldsEntry m.mem addr entry) :
    HoldsEntry reached.mem addr entry := by
  have second : (addr + 8).toNat = addr.toNat + 8 :=
    @toNat_add_of_lt _ 8 (by change addr.toNat + 8 < 2 ^ 32; omega)
  have third : (addr + 16).toNat = addr.toNat + 16 :=
    @toNat_add_of_lt _ 16 (by change addr.toNat + 16 < 2 ^ 32; omega)
  exact ⟨(keeps.word64 (by omega)).trans holds.base, (keeps.word64 (by omega)).trans holds.length,
    (keeps.word32 (by omega)).trans holds.type⟩

/-- A table is still there if the low memory stays as it is. -/
theorem DescribesMap.low {mbi : UInt32} (keeps : KeepsLow m reached)
    (below : mbi.toNat + 52 ≤ 0x69C00) (describes : DescribesMap m.mem mbi table) :
    DescribesMap reached.mem mbi table := by
  have capacity : table.nrMap ≤ 256 := describes.capacity
  refine ⟨?_, (keeps.word32 (by omega)).trans describes.start,
    (keeps.word32 (by omega)).trans describes.length, capacity, fun j inside => ?_⟩
  · rw [← describes.present, mbiHas, mbiHas, keeps.word32 (by omega)]
  · have place := toNat_tableEntry_field (by omega : j ≤ 256)
    exact (describes.entries j inside).low keeps (by omega)

end Low

/-- As many megabytes of RAM as there are entries. -/
def ramTable (nrMap : Nat) : E820Table :=
  ⟨fun i => ⟨20, UInt64.ofNat (0x100000 * i), 0x100000, e820Ram⟩, nrMap⟩

/-- The run that loads the image. -/
def mappedRun (nrMap : Nat) : Outcome Halt LinuxMachine (Option (KernelPlacement × List UInt8)) :=
  loadLinuxImage imageGlobals (imageArgs 0x4000 0) (.start (mappedMemory (ramTable nrMap)))

theorem mappedRun_describes {nrMap : Nat}
    (value : (mappedRun nrMap).value?.map (Option.map Prod.fst) =
      some (some ⟨0x90000, 0xA00, 0x900000, 0x3600⟩))
    (describes : DescribesMap (mappedMemory (ramTable nrMap)) 0x9000 (ramTable nrMap)) :
    ∃ header before,
      loadLinuxImage imageGlobals (imageArgs 0x4000 0) (.start (mappedMemory (ramTable nrMap))) =
        .ok (some (⟨0x90000, 0xA00, 0x900000, 0x3600⟩, header)) before ∧
      DescribesMap before.mem 0x9000 (ramTable nrMap) := by
  obtain ⟨found, returned, same⟩ := Option.map_eq_some_iff.mp value
  obtain ⟨⟨placement, header⟩, rfl, rfl⟩ := Option.map_eq_some_iff.mp same
  obtain ⟨before, loaded⟩ := Outcome.eq_ok_of_value? returned
  obtain ⟨placed, accepted⟩ := loadLinuxImage_placed loaded
  have keeps := loadLinuxImage_keepsLow ⟨by decide, by decide⟩ rfl accepted
    ⟨by decide, by decide⟩ loaded
  exact ⟨header, before, loaded, describes.low keeps (by decide)⟩

theorem expandLinuxImage_map_iff_two :
    ∃ entry reached, expandLinuxImage imageGlobals (imageArgs 0x4000 0)
        (.start (mappedMemory (ramTable 2))) = .ok (some entry) reached ∧
      (HandedOver (ramTable 2) 0x90A00 reached ↔ (ramTable 2).nrMap ≤ 128) := by
  obtain ⟨header, before, loaded, describes⟩ := @mappedRun_describes 2 (by decide +kernel)
    ⟨by decide +kernel, by decide +kernel, by decide +kernel, by decide,
      fun j inside => holdsEntry_storedTable inside (by decide)⟩
  exact expandLinuxImage_map_iff loaded describes

/-- The last of 129 entries is written behind the map. -/
theorem expandLinuxImage_map_overrun :
    (ramTable 129).nrMap ≤ maxE820Entries ∧
      DescribesMap (mappedMemory (ramTable 129)) 0x9000 (ramTable 129) ∧
      ∃ entry reached, expandLinuxImage imageGlobals (imageArgs 0x4000 0)
          (.start (mappedMemory (ramTable 129))) = .ok (some entry) reached ∧
        ¬ HandedOver (ramTable 129) 0x90A00 reached := by
  have stored : DescribesMap (mappedMemory (ramTable 129)) 0x9000 (ramTable 129) :=
    ⟨by decide +kernel, by decide +kernel, by decide +kernel, by decide,
      fun j inside => holdsEntry_storedTable inside (by decide)⟩
  obtain ⟨header, before, loaded, describes⟩ := @mappedRun_describes 129 (by decide +kernel) stored
  obtain ⟨entry, reached, run, -, -, inside⟩ := expandLinuxImage_copied loaded describes
  exact ⟨by decide, stored, entry, reached, run, fun handed =>
    absurd (inside.mp handed.inside) (by decide)⟩

end Tables

end Sable
