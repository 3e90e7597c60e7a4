import Mathlib.Data.List.GetD
import Sable.HeapRegions
import Sable.Txt

/-!
# The blocks that the loader writes to the TXT heap

The size of the block for SINIT counts the size itself, but the loader clears as many
bytes behind it.  So it writes eight bytes behind the two blocks if they lie one behind the
other, which is where the checks after the launch look for them.
-/

namespace Sable

open ByteMemory BigEndian HaltingProgram

section Memory

variable {mem : Mem} {addr ptr : UInt32} {len : Nat} {bytes : Nat → UInt8}

/-- The distance from an address to a pointer. -/
def distance (addr ptr : UInt32) : Nat :=
  (ptr.toNat + 2 ^ 32 - addr.toNat) % 2 ^ 32

theorem flat_storeFrom_inside {i : Nat} (inside : distance addr ptr + i < len)
    (room : distance addr ptr + i < 2 ^ 32) :
    flat (storeFrom mem addr len bytes) (ptr.toNat + i) = bytes (distance addr ptr + i) := by
  have first := addr.toNat_lt
  have second := ptr.toNat_lt
  unfold distance at *
  have place : ((ptr.toNat + i) % 2 ^ 32 + 2 ^ 32 - addr.toNat) % 2 ^ 32 =
      (ptr.toNat + 2 ^ 32 - addr.toNat) % 2 ^ 32 + i := by omega
  rw [flat, storeFrom, place, if_pos inside]

theorem flat_storeFrom_outside {i : Nat} (outside : len ≤ distance addr ptr + i)
    (room : distance addr ptr + i < 2 ^ 32) :
    flat (storeFrom mem addr len bytes) (ptr.toNat + i) = flat mem (ptr.toNat + i) := by
  have first := addr.toNat_lt
  have second := ptr.toNat_lt
  unfold distance at *
  have place : ((ptr.toNat + i) % 2 ^ 32 + 2 ^ 32 - addr.toNat) % 2 ^ 32 =
      (ptr.toNat + 2 ^ 32 - addr.toNat) % 2 ^ 32 + i := by omega
  rw [flat, storeFrom, place, if_neg (by omega)]
  rfl

theorem word64_congr {other : Mem}
    (same : ∀ i < 8, flat mem (ptr.toNat + i) = flat other (ptr.toNat + i)) :
    word64 mem ptr 0 = word64 other ptr 0 := by
  have low : word32 mem ptr 0 = word32 other ptr 0 := by
    apply load32_congr
    intro a lower upper
    obtain ⟨i, rfl⟩ := Nat.exists_eq_add_of_le lower
    exact same i (by omega)
  have high : word32 mem ptr 4 = word32 other ptr 4 := by
    apply load32_congr
    intro a lower upper
    obtain ⟨i, rfl⟩ := Nat.exists_eq_add_of_le lower
    rw [Nat.add_assoc]
    exact same (4 + i) (by omega)
  rw [word64, word64, Nat.zero_add, low, high]

/-- A store elsewhere. -/
theorem word64_storeFrom_outside (outside : len ≤ distance addr ptr)
    (room : distance addr ptr + 8 ≤ 2 ^ 32) :
    word64 (storeFrom mem addr len bytes) ptr 0 = word64 mem ptr 0 :=
  word64_congr fun i inside => flat_storeFrom_outside (by omega) (by omega)

/-- A quadword from its halves. -/
theorem halves_eq (quad : UInt64) :
    (quad >>> 32).toUInt32.toUInt64 <<< 32 ||| quad.toUInt32.toUInt64 = quad := by
  have small := quad.toNat_lt
  apply UInt64.toNat_inj.mp
  rw [UInt64.toNat_or, UInt64.toNat_shiftLeft, UInt32.toNat_toUInt64, UInt32.toNat_toUInt64,
    UInt64.toNat_toUInt32, UInt64.toNat_toUInt32, UInt64.toNat_shiftRight]
  change (quad.toNat >>> 32 % 2 ^ 32) <<< 32 % 2 ^ 64 ||| quad.toNat % 2 ^ 32 = quad.toNat
  rw [Nat.shiftRight_eq_div_pow, Nat.shiftLeft_eq,
    Nat.mod_eq_of_lt (by omega : quad.toNat / 2 ^ 32 < 2 ^ 32),
    Nat.mod_eq_of_lt (by omega : quad.toNat / 2 ^ 32 * 2 ^ 32 < 2 ^ 64), Nat.mul_comm,
    ← Nat.two_pow_add_eq_or_of_lt (Nat.mod_lt _ (by decide)), Nat.div_add_mod]

/-- The bytes of a stored quadword. -/
def quadBytes (quad : UInt64) : List UInt8 :=
  le32 quad.toUInt32 ++ le32 (quad >>> 32).toUInt32

theorem word32_of_bytes {i : Nat} {word : UInt32}
    (stored : ∀ k < 4, word8 mem ptr (i + k) = (le32 word).getD k 0) :
    word32 mem ptr i = word := by
  have value : word32 mem ptr i = ofBe32 [word8 mem ptr (i + 3), word8 mem ptr (i + 2),
    word8 mem ptr (i + 1), word8 mem ptr (i + 0)] := rfl
  rw [value, stored 3 (by decide), stored 2 (by decide), stored 1 (by decide),
    stored 0 (by decide)]
  exact ofBe32_be32 word

theorem word64_of_bytes {quad : UInt64}
    (stored : ∀ k < 8, word8 mem ptr k = (quadBytes quad).getD k 0) :
    word64 mem ptr 0 = quad := by
  have low : word32 mem ptr 0 = quad.toUInt32 := by
    apply word32_of_bytes
    intro k inside
    rw [Nat.zero_add, stored k (by omega), quadBytes, List.getD_append _ _ _ _ inside]
  have high : word32 mem ptr 4 = (quad >>> 32).toUInt32 := by
    apply word32_of_bytes
    intro k inside
    rw [stored (4 + k) (by omega), quadBytes, List.getD_append_right _ _ _ _ (Nat.le_add_right 4 k)]
    exact congrArg (fun i => (le32 (quad >>> 32).toUInt32).getD i 0) (Nat.add_sub_cancel_left 4 k)
  rw [word64, Nat.zero_add, low, high, halves_eq]

/-- The bytes that have been stored are found again. -/
theorem word8_storeFrom_self {i : Nat} (inside : i < len) (room : i < 2 ^ 32) :
    word8 (storeFrom mem ptr len bytes) ptr i = bytes i := by
  have zero : distance ptr ptr = 0 := by
    unfold distance
    omega
  have stored := @flat_storeFrom_inside mem ptr ptr len bytes i (by omega) (by omega)
  rwa [zero, Nat.zero_add] at stored

theorem word32_storeFrom_self (word : UInt32) :
    word32 (storeFrom mem ptr 4 fun i => (le32 word).getD i 0) ptr 0 = word := by
  apply word32_of_bytes
  intro k inside
  rw [Nat.zero_add, word8_storeFrom_self inside (by omega)]

theorem word64_storeFrom_self (quad : UInt64) :
    word64 (storeFrom mem ptr 8 fun i => (quadBytes quad).getD i 0) ptr 0 = quad :=
  word64_of_bytes fun _ inside => word8_storeFrom_self inside (by omega)

end Memory

section Records

/-- No block is added, and what was written stays on the record. -/
structure Appends (before after : HeapMachine) : Prop where
  blocks : after.blocks = before.blocks
  writes : before.writes ⊆ after.writes

theorem Appends.refl (m : HeapMachine) : Appends m m :=
  ⟨rfl, fun _ inside => inside⟩

theorem Appends.trans {first second third : HeapMachine} (one : Appends first second)
    (two : Appends second third) : Appends first third :=
  ⟨two.blocks.trans one.blocks, fun _ inside => two.writes (one.writes inside)⟩

/-- The program writes no sizes of blocks. -/
def Appending {α : Type} (program : Prog Halt HeapMachine α) : Prop :=
  Prog.Steps Appends program

variable {α β : Type}

theorem Appending.ret (value : α) : Appending (pure value) :=
  Appends.refl

theorem Appending.bind {program : Prog Halt HeapMachine α} {next : α → Prog Halt HeapMachine β}
    (first : Appending program) (second : ∀ value, Appending (next value)) :
    Appending (program >>= next) :=
  Prog.Steps.bind Appends.trans first second

theorem Appending.ite {condition : Prop} [Decidable condition]
    {yes no : Prog Halt HeapMachine α} (first : Appending yes) (second : Appending no) :
    Appending (if condition then yes else no) :=
  Prog.Steps.ite first second

theorem Reader.appending {program : Prog Halt HeapMachine α} (reader : Reader program) :
    Appending program :=
  fun m => ⟨(reader m).blocks, fun _ inside => (reader m).writes ▸ inside⟩

theorem heapStore_appending (addr : UInt32) (len : Nat) (bytes : Nat → UInt8) :
    Appending (heapStore addr len bytes) := by
  apply Prog.Steps.modify
  intro m
  exact ⟨rfl, List.subset_cons_self _ _⟩

theorem heapStoreWord_appending (addr word : UInt32) : Appending (heapStoreWord addr word) :=
  heapStore_appending _ _ _

theorem heapStoreQuad_appending (addr : UInt32) (quad : UInt64) :
    Appending (heapStoreQuad addr quad) :=
  heapStore_appending _ _ _

theorem setCap_appending (addr cap : UInt32) : Appending (setCap addr cap) :=
  (heapWord_reader addr).appending.bind fun _ => heapStoreWord_appending _ _

theorem clearCap_appending (addr cap : UInt32) : Appending (clearCap addr cap) :=
  (heapWord_reader addr).appending.bind fun _ => heapStoreWord_appending _ _

theorem get_appending : Appending (Prog.get : Prog Halt HeapMachine HeapMachine) :=
  Appends.refl

variable (platform : HeapPlatform)

theorem heapStoreBytes_appending (addr : UInt32) (bytes : List UInt8) :
    Appending (heapStoreBytes addr bytes) :=
  heapStore_appending _ _ _

theorem initEventLog_appending : Appending (initEventLog platform) := by
  refine (getOsMleDataStart_reader _).appending.bind fun osMleData => ?_
  generalize osMleData + eventLogBuffer = elog
  dsimp only
  refine (heapStoreBytes_appending _ _).bind fun _ =>
    (heapStoreBytes_appending _ _).bind fun _ => ?_
  refine (heapStoreBytes_appending _ _).bind fun _ =>
    (heapStoreBytes_appending _ _).bind fun _ => ?_
  refine (heapStoreBytes_appending _ _).bind fun _ => (heapStoreWord_appending _ _).bind fun _ => ?_
  exact (heapStoreWord_appending _ _).bind fun _ => (heapStoreWord_appending _ _).bind fun _ =>
    .ret _

theorem initOsSinitExtData_appending (elts : UInt32) :
    Appending (initOsSinitExtData platform elts) := by
  refine (initEventLog_appending platform).bind fun _ =>
    (heapStoreQuad_appending _ _).bind fun _ => ?_
  refine (heapStoreWord_appending _ _).bind fun _ => (heapStoreWord_appending _ _).bind fun _ => ?_
  exact (heapWord_reader _).appending.bind fun _ => (heapStoreWord_appending _ _).bind fun _ =>
    heapStoreWord_appending _ _

theorem storeVtdPmrs_appending (osSinitData : UInt32) (ranges : RamRanges) :
    Appending (storeVtdPmrs osSinitData ranges) :=
  (heapStoreQuad_appending _ _).bind fun _ => (heapStoreQuad_appending _ _).bind fun _ =>
    (heapStoreQuad_appending _ _).bind fun _ => heapStoreQuad_appending _ _

theorem chooseWakeup_appending (caps sinitCaps : UInt32) :
    Appending (chooseWakeup caps sinitCaps) :=
  (heapStoreWord_appending _ _).bind fun _ =>
    .ite ((setCap_appending _ _).bind fun _ => .ret _)
      (.ite ((setCap_appending _ _).bind fun _ => .ret _) (.ret _))

theorem choosePcrMap_appending (caps sinitCaps : UInt32) :
    Appending (choosePcrMap caps sinitCaps) :=
  (setCap_appending _ _).bind fun _ =>
    .ite ((clearCap_appending _ _).bind fun _ => .ret _)
      (.ite ((setCap_appending _ _).bind fun _ => .ret _) (.ret _))

theorem storeRsdp_appending (osSinitData version : UInt32) :
    Appending (storeRsdp platform osSinitData version) := by
  refine .ite (Prog.Steps.halt Appends.refl _) (.ite ?_ ?_)
  · exact get_appending.bind fun _ => heapStoreQuad_appending _ _
  · have copied : Appending (Prog.modify fun m : HeapMachine =>
        { m with mem := copyBytes m.mem platform.gRsdp platform.rsdp 36 }) := by
      apply Prog.Steps.modify
      intro m
      exact ⟨rfl, List.Subset.refl _⟩
    exact copied.bind fun _ => heapStoreQuad_appending _ _

theorem finishOsSinitData_appending (osSinitData version : UInt32) (ranges : RamRanges) :
    Appending (finishOsSinitData platform osSinitData version ranges) := by
  have rest (caps sinitCaps : UInt32) : Appending (do
      clearCap caps capEcxPgtbl
      storeRsdp platform osSinitData version
      let mapped ← choosePcrMap caps sinitCaps
      if ¬ mapped then return false
      let stored ← heapWord osSinitData
      if stored ≥ 6 then initOsSinitExtData platform (osSinitData + 92)
      return true) :=
    (clearCap_appending _ _).bind fun _ => (storeRsdp_appending _ _ _).bind fun _ =>
      (choosePcrMap_appending _ _).bind fun _ => .ite (.ret _) <|
      (heapWord_reader _).appending.bind fun _ =>
      .ite ((initOsSinitExtData_appending _ _).bind fun _ => .ret _) (.ret _)
  exact (storeVtdPmrs_appending _ _).bind fun _ => get_appending.bind fun _ =>
    (chooseWakeup_appending _ _).bind fun _ => .ite (.ret _) <|
    .ite ((setCap_appending _ _).bind fun _ => rest _ _) (rest _ _)

end Records

section Sizes

variable {heap ptr : UInt32} {m reached : HeapMachine}

/-- The quadword at a pointer. -/
def quadAt (ptr : UInt32) (m : HeapMachine) : UInt64 :=
  word64 m.mem ptr 0

theorem distance_add {offset : UInt32} (positive : 0 < offset.toNat) :
    distance (ptr + offset) ptr = 2 ^ 32 - offset.toNat := by
  have first := ptr.toNat_lt
  have second := offset.toNat_lt
  rw [distance, UInt32.toNat_add]
  omega

/-- A store behind a quadword leaves it alone, unless it goes round the address space. -/
theorem heapStore_keeps {offset : UInt32} {len : Nat} (bytes : Nat → UInt8)
    (lower : 8 ≤ offset.toNat) (upper : offset.toNat + len ≤ 2 ^ 32) :
    Prog.Preserves (quadAt ptr) (heapStore (ptr + offset) len bytes) := by
  apply Prog.Steps.modify
  intro m
  have apart := @distance_add ptr offset (by omega)
  exact word64_storeFrom_outside (by omega) (by omega)

theorem storeSize_keeps {offset : UInt32} (size : UInt64) (lower : 8 ≤ offset.toNat)
    (upper : offset.toNat + 8 ≤ 2 ^ 32) :
    Prog.Preserves (quadAt ptr) (storeSize (ptr + offset) size) := by
  refine Prog.Preserves.bind (heapStore_keeps _ lower upper) fun _ => ?_
  apply Prog.Steps.modify
  intro m
  rfl

/-- What storing a size leaves. -/
theorem storeSize_run {start : UInt32} {size : UInt64} {value : Unit}
    (run : storeSize start size m = .ok value reached) :
    quadAt start reached = size ∧ reached.blocks = ⟨start, size⟩ :: m.blocks ∧
      m.writes ⊆ reached.writes := by
  cases run
  exact ⟨word64_storeFrom_self size, rfl, List.subset_cons_self _ _⟩

/-- What is left to do of the block for the measured environment when its size is stored. -/
def osMleBody (platform : HeapPlatform) (start : UInt32) : Prog Halt HeapMachine Unit := do
  heapClear (start + 8) osMleDataSize.toUInt32
  heapStoreWord (start + 8) 3
  heapStoreWord (start + 8 + 272) 0
  heapStoreWord (start + 8 + 276) platform.miscEnable.toUInt32

theorem osMleBody_appending (platform : HeapPlatform) (start : UInt32) :
    Appending (osMleBody platform start) :=
  (heapStore_appending _ _ _).bind fun _ => (heapStoreWord_appending _ _).bind fun _ =>
    (heapStoreWord_appending _ _).bind fun _ => heapStoreWord_appending _ _

/-- The body keeps a quadword that is not in the block. -/
theorem osMleBody_keeps (platform : HeapPlatform) {offset : UInt32}
    (upper : offset.toNat + 86304 ≤ 2 ^ 32) :
    Prog.Preserves (quadAt ptr) (osMleBody platform (ptr + offset)) := by
  have place (more : UInt32) (small : more.toNat ≤ 86304) :
      (offset + more).toNat = offset.toNat + more.toNat ∨ offset.toNat + more.toNat = 2 ^ 32 := by
    rw [UInt32.toNat_add]
    omega
  have word (more value : UInt32) (lower : 8 ≤ more.toNat) (small : more.toNat + 4 ≤ 86304) :
      Prog.Preserves (quadAt ptr) (heapStoreWord (ptr + (offset + more)) value) := by
    have sum := place more (by omega)
    exact heapStore_keeps _ (by omega) (by change (offset + more).toNat + 4 ≤ _; omega)
  have clear : Prog.Preserves (quadAt ptr)
      (heapClear (ptr + (offset + 8)) osMleDataSize.toUInt32) := by
    have sum : (offset + 8).toNat = offset.toNat + 8 := by
      rw [UInt32.toNat_add]
      change (offset.toNat + 8) % 2 ^ 32 = _
      omega
    exact heapStore_keeps _ (by omega) (by change (offset + 8).toNat + 86296 ≤ _; omega)
  rw [osMleBody, UInt32.add_assoc]
  refine clear.bind fun _ => (word 8 3 (by decide) (by decide)).bind fun _ => ?_
  rw [UInt32.add_assoc, UInt32.add_assoc, UInt32.add_assoc, UInt32.add_assoc]
  exact (word (8 + 272) 0 (by decide) (by decide)).bind fun _ =>
    word (8 + 276) _ (by decide) (by decide)

theorem initOsMleData_split {platform : HeapPlatform}
    (run : initOsMleData platform heap m = .ok () reached) :
    ∃ between, storeSize (heap + (quadAt heap m).toUInt32) (osMleDataSize + 8)
        (m.reading heap 8) = .ok () between ∧
      osMleBody platform (heap + (quadAt heap m).toUInt32) between = .ok () reached := by
  have back : heap + (quadAt heap m).toUInt32 + 8 - 8 = heap + (quadAt heap m).toUInt32 :=
    UInt32.add_sub_cancel _ _
  have start : getOsMleDataStart heap m =
    .ok (heap + (quadAt heap m).toUInt32 + 8) (m.reading heap 8) := rfl
  rw [initOsMleData, Prog.bind_ok start, back] at run
  obtain ⟨_, between, sized, body⟩ := Prog.bind_eq_ok.mp run
  exact ⟨between, sized, body⟩

theorem initOsMleData_blocks {platform : HeapPlatform}
    (run : initOsMleData platform heap m = .ok () reached) :
    reached.blocks = ⟨heap + (quadAt heap m).toUInt32, 86304⟩ :: m.blocks := by
  obtain ⟨between, sized, body⟩ := initOsMleData_split run
  have same := osMleBody_appending platform (heap + (quadAt heap m).toUInt32) between
  rw [body] at same
  exact same.blocks.trans (storeSize_run sized).2.1

/-- Where the block does not lie over the size of the firmware data, the two sizes are found
again. -/
theorem initOsMleData_run {platform : HeapPlatform}
    (lower : 8 ≤ (quadAt heap m).toUInt32.toNat)
    (upper : (quadAt heap m).toUInt32.toNat + 86304 ≤ 2 ^ 32)
    (run : initOsMleData platform heap m = .ok () reached) :
    quadAt heap reached = quadAt heap m ∧
      quadAt (heap + (quadAt heap m).toUInt32) reached = 86304 := by
  obtain ⟨between, sized, body⟩ := initOsMleData_split run
  have kept := (storeSize_keeps (osMleDataSize + 8) lower (by omega)).eq_of_ok sized
  refine ⟨((osMleBody_keeps platform upper).eq_of_ok body).trans kept, ?_⟩
  have self := @osMleBody_keeps (heap + (quadAt heap m).toUInt32) platform 0 (by decide)
  rw [UInt32.add_zero] at self
  exact (self.eq_of_ok body).trans (storeSize_run sized).1

/-- What is left to do of the block for SINIT when it is cleared. -/
def osSinitBody (platform : HeapPlatform) (osSinitData version : UInt32) :
    Prog Halt HeapMachine UInt32 := do
  heapStoreWord osSinitData version
  heapStoreQuad (osSinitData + 8) platform.ptabBase.toUInt64
  heapStoreQuad (osSinitData + 16) (platform.mleEnd - platform.mleStart).toUInt64
  heapStoreQuad (osSinitData + 24) (platform.mleHdr.toUInt64 - platform.mleStart.toUInt64)
  return osSinitData

theorem osSinitBody_appending (platform : HeapPlatform) (osSinitData version : UInt32) :
    Appending (osSinitBody platform osSinitData version) :=
  (heapStoreWord_appending _ _).bind fun _ => (heapStoreQuad_appending _ _).bind fun _ =>
    (heapStoreQuad_appending _ _).bind fun _ => (heapStoreQuad_appending _ _).bind fun _ =>
    .ret _

theorem initOsSinitData_run {platform : HeapPlatform} {start version result : UInt32}
    (address : (osSinitBlock m.mem heap).start = start)
    (run : initOsSinitData platform heap version m = .ok result reached) :
    reached.blocks = ⟨start, calcOsSinitDataSize version⟩ :: m.blocks ∧
      ⟨start + 8, (calcOsSinitDataSize version).toUInt32.toNat⟩ ∈ reached.writes := by
  have back : start + 8 - 8 = start := UInt32.add_sub_cancel _ _
  obtain ⟨first, found, _⟩ := getOsSinitDataStart_run heap m
  have firstBlocks : first.blocks = m.blocks := by
    have only := getOsSinitDataStart_reader heap m
    rw [found] at only
    exact only.blocks
  rw [initOsSinitData, Prog.bind_ok found, address, back] at run
  obtain ⟨_, second, sized, run⟩ := Prog.bind_eq_ok.mp run
  obtain ⟨value, blocks, -⟩ := storeSize_run sized
  have size : word64 second.mem start 0 = calcOsSinitDataSize version := value
  rw [Prog.bind_ok (heapQuad_run _ _), size] at run
  obtain ⟨_, third, cleared, body⟩ := Prog.bind_eq_ok.mp run
  have same := osSinitBody_appending platform (start + 8) version third
  have bodyRun : osSinitBody platform (start + 8) version third = .ok result reached := body
  rw [bodyRun] at same
  cases cleared
  refine ⟨same.blocks.trans (blocks.trans (by rw [firstBlocks])), same.writes ?_⟩
  exact List.mem_cons_self

end Sizes

section Result

variable {platform : HeapPlatform} {mem : Mem} {reached : HeapMachine} {ptr : UInt32}

/-- The address is in the block. -/
def HeapBlock.Covers (block : HeapBlock) (a : Nat) : Prop :=
  block.start.toNat ≤ a ∧ a < block.stop

/-- What the initialised heap should be like: all writes are in the blocks whose sizes were
written, other memory is as before, the blocks are in the heap, and the checks after the
launch find these blocks and accept them. -/
structure HeapPrepared (platform : HeapPlatform) (mem : Mem) (reached : HeapMachine) : Prop where
  writes : ∀ access ∈ reached.writes, ∀ a, access.Touches a →
    ∃ block ∈ reached.blocks, block.Covers a
  frame : ∀ a, platform.heapBase.toNat ≤ a → a < 2 ^ 32 →
    (∀ block ∈ reached.blocks, ¬ block.Covers a) → reached.mem a = mem a
  inside : ∀ block ∈ reached.blocks, platform.heapBase.toNat ≤ block.start.toNat ∧
    block.stop ≤ platform.heapBase.toNat + platform.heapSize.toNat
  found : reached.blocks = [osSinitBlock reached.mem (getTxtHeap platform.heapBase),
    osMleBlock reached.mem (getTxtHeap platform.heapBase)]
  osMle : ∃ final, verifyOsMleData platform.heapSize (getTxtHeap platform.heapBase) reached =
    .ok true final
  osSinit : ∃ final, verifyOsSinitData platform.heapSize (getTxtHeap platform.heapBase) reached =
    .ok true final

/-- A test that gives up was passed. -/
theorem goes_on_of_some {m : HeapMachine} {condition : Prop} [Decidable condition]
    {next : Prog Halt HeapMachine (Option UInt32)}
    (run : (if condition then pure none else next : Prog Halt HeapMachine (Option UInt32)) m =
      .ok (some ptr) reached) : next m = .ok (some ptr) reached :=
  ((Prog.ite_pure_eq_ok (Option.some_ne_none ptr).symm).mp run).2

/-- The size of the firmware data is not in the first block of the loader. -/
def SizeApart (mem : Mem) (heap : UInt32) : Prop :=
  8 ≤ (word64 mem heap 0).toUInt32.toNat ∧ (word64 mem heap 0).toUInt32.toNat + 86304 ≤ 2 ^ 32

/-- The two blocks and the clearing that goes too far. -/
theorem initTxtHeap_run (run : initTxtHeap platform (.start mem) = .ok (some ptr) reached) :
    ∃ first second version,
      reached.blocks = [⟨second, calcOsSinitDataSize version⟩, ⟨first, 86304⟩] ∧
      ⟨second + 8, (calcOsSinitDataSize version).toUInt32.toNat⟩ ∈ reached.writes ∧
      (SizeApart mem (getTxtHeap platform.heapBase) → second = first + 86304) := by
  rw [initTxtHeap] at run
  obtain ⟨verified, start, check, run⟩ := Prog.bind_eq_ok.mp run
  have only := verifyTxtHeap_reader (getTxtHeap platform.heapBase) platform.heapBase
    platform.heapSize true (.start mem)
  rw [check] at only
  obtain ⟨_, middle, osMle, run⟩ := Prog.bind_eq_ok.mp (goes_on_of_some run)
  have blocks := initOsMleData_blocks osMle
  rw [Prog.bind_get] at run
  obtain ⟨result, third, osSinit, run⟩ := Prog.bind_eq_ok.mp (goes_on_of_some run)
  obtain ⟨sinitBlocks, cleared⟩ := initOsSinitData_run rfl osSinit
  have later : Appends third reached := by
    cases ranges : (getRamRanges platform.table).1 with
    | none =>
        rw [ranges] at run
        cases run
    | some ram =>
        rw [ranges] at run
        obtain ⟨finished, fourth, finish, run⟩ := Prog.bind_eq_ok.mp run
        have same := finishOsSinitData_appending platform result
          (if getSupportedOsSinitDataVer middle.mem platform.sinit > maxOsSinitDataVer then
            maxOsSinitDataVer else getSupportedOsSinitDataVer middle.mem platform.sinit) ram third
        rw [finish] at same
        cases goes_on_of_some run
        exact same
  refine ⟨getTxtHeap platform.heapBase + (quadAt (getTxtHeap platform.heapBase) start).toUInt32,
    _, _, ?_, later.writes cleared, ?_⟩
  · have none : start.blocks = [] := only.blocks
    rw [later.blocks, sinitBlocks, blocks, none]
  · rintro ⟨lower, upper⟩
    have size : quadAt (getTxtHeap platform.heapBase) start =
        word64 mem (getTxtHeap platform.heapBase) 0 := congrArg (word64 · _ 0) only.mem
    obtain ⟨kept, stored⟩ := initOsMleData_run (by rwa [size]) (by rwa [size]) osMle
    have block : (osMleBlock middle.mem (getTxtHeap platform.heapBase)).size = 86304 := by
      change quadAt (getTxtHeap platform.heapBase +
        (quadAt (getTxtHeap platform.heapBase) middle).toUInt32) middle = _
      rw [kept]
      exact stored
    change getTxtHeap platform.heapBase +
        (quadAt (getTxtHeap platform.heapBase) middle).toUInt32 +
        (osMleBlock middle.mem (getTxtHeap platform.heapBase)).size.toUInt32 = _
    rw [block, kept]
    rfl

/-- The first byte behind the block for SINIT is in no block. -/
theorem excess_not_covered {start : UInt32} {size : UInt64} (least : 8 ≤ size.toNat)
    (most : size.toNat ≤ 124) {block : HeapBlock}
    (member : block ∈ [(⟨start + 86304, size⟩ : HeapBlock), ⟨start, 86304⟩]) :
    ¬ block.Covers (((start + 86304 + 8).toNat + (size.toNat - 8)) % 2 ^ 32) := by
  have small := start.toNat_lt
  have second : (start + 86304).toNat = (start.toNat + 86304) % 2 ^ 32 := UInt32.toNat_add _ _
  have address : ((start + 86304 + 8).toNat + (size.toNat - 8)) % 2 ^ 32 =
      (start.toNat + 86304 + size.toNat) % 2 ^ 32 := by
    rw [UInt32.toNat_add, second]
    change (((start.toNat + 86304) % 2 ^ 32 + 8) % 2 ^ 32 + (size.toNat - 8)) % 2 ^ 32 = _
    omega
  rw [address]
  rintro ⟨above, below⟩
  unfold HeapBlock.stop at below
  simp only [List.mem_cons, List.not_mem_nil, or_false] at member
  rcases member with rfl | rfl
  · simp only [second] at above below
    omega
  · simp only [] at above below
    have size2 : (86304 : UInt64).toNat = 86304 := rfl
    omega

theorem calcOsSinitDataSize_bounds (version : UInt32) :
    8 ≤ (calcOsSinitDataSize version).toNat ∧ (calcOsSinitDataSize version).toNat ≤ 124 := by
  unfold calcOsSinitDataSize
  split
  · decide
  · split <;> decide

/-- A byte behind two adjacent blocks is written. -/
theorem excess_of_adjacent {start version : UInt32}
    (blocks : reached.blocks = [⟨start + 86304, calcOsSinitDataSize version⟩, ⟨start, 86304⟩])
    (cleared : ⟨start + 86304 + 8, (calcOsSinitDataSize version).toUInt32.toNat⟩ ∈
      reached.writes) :
    ∃ access ∈ reached.writes, ∃ a, access.Touches a ∧
      ∀ block ∈ reached.blocks, ¬ block.Covers a := by
  obtain ⟨least, most⟩ := calcOsSinitDataSize_bounds version
  have length : (calcOsSinitDataSize version).toUInt32.toNat =
      (calcOsSinitDataSize version).toNat := by
    rw [UInt64.toNat_toUInt32]
    omega
  refine ⟨_, cleared,
    ((start + 86304 + 8).toNat + ((calcOsSinitDataSize version).toNat - 8)) % 2 ^ 32,
    ⟨(calcOsSinitDataSize version).toNat - 8, ?_, rfl⟩, ?_⟩
  · change _ < (calcOsSinitDataSize version).toUInt32.toNat
    omega
  · rw [blocks]
    intro block member
    exact excess_not_covered least most member

/-- Unless the first block of the loader lies over the size of the firmware data, a byte behind
the blocks is written. -/
theorem initTxtHeap_excess (apart : SizeApart mem (getTxtHeap platform.heapBase))
    (run : initTxtHeap platform (.start mem) = .ok (some ptr) reached) :
    ∃ access ∈ reached.writes, ∃ a, access.Touches a ∧
      ∀ block ∈ reached.blocks, ¬ block.Covers a := by
  obtain ⟨first, second, version, blocks, cleared, adjacent⟩ := initTxtHeap_run run
  rw [adjacent apart] at blocks cleared
  exact excess_of_adjacent blocks cleared

/-- The initialised heap is never as it should be: blocks that the checks find lie one behind
the other, and then a byte behind them is written. -/
theorem initTxtHeap_not_prepared
    (run : initTxtHeap platform (.start mem) = .ok (some ptr) reached) :
    ¬ HeapPrepared platform mem reached := by
  intro prepared
  obtain ⟨first, second, version, blocks, cleared, -⟩ := initTxtHeap_run run
  have found := prepared.found
  rw [blocks, List.cons.injEq, List.cons.injEq] at found
  obtain ⟨sinit, mle, -⟩ := found
  have adjacent : second = first + 86304 := by
    have start := congrArg HeapBlock.start sinit
    have size := congrArg HeapBlock.size mle
    change second = (osMleBlock reached.mem (getTxtHeap platform.heapBase)).start +
      (osMleBlock reached.mem (getTxtHeap platform.heapBase)).size.toUInt32 at start
    rw [start, ← mle]
    rfl
  rw [adjacent] at blocks cleared
  obtain ⟨access, written, a, touches, outside⟩ := excess_of_adjacent blocks cleared
  obtain ⟨block, member, covers⟩ := prepared.writes access written a touches
  exact outside block member covers

/-- A heap of 128 kilobytes with a firmware block of 44 bytes, and a SINIT module that
supports version 6. -/
def launchMemory : Mem :=
  write (write (write (memoryFrom 0x100000 (biosBytes 44)) 0x200004 (le32 8)) 0x200018 (le32 20))
    0x200031 ([3, 0, 0, 0, 0, 0, 0] ++ le32 6 ++ le32 0 ++ le32 2)

def launchHeap : HeapPlatform where
  heapBase := 0x100000
  heapSize := 0x20000
  ptabBase := 0x700000
  sinit := 0x200000
  mleStart := 0x800000
  mleEnd := 0x900000
  mleHdr := 0x800100
  miscEnable := 1
  table := ⟨fun i => if i = 0 then ⟨20, 0, 0x8000000, 1⟩ else ⟨20, 0x8000000, 0x1000, 2⟩, 2⟩
  rsdp := 0xf0000
  gRsdp := 0x810000

theorem launchHeap_run :
    ∃ reached, initTxtHeap launchHeap (.start launchMemory) = .ok (some 0x100000) reached :=
  Outcome.eq_ok_of_value? (by decide +kernel)

theorem initTxtHeap_not_prepared_launchHeap :
    ∃ reached, initTxtHeap launchHeap (.start launchMemory) = .ok (some 0x100000) reached ∧
      ¬ HeapPrepared launchHeap launchMemory reached := by
  obtain ⟨reached, run⟩ := launchHeap_run
  exact ⟨reached, run, initTxtHeap_not_prepared run⟩

/-- A byte behind the blocks is written. -/
theorem launchHeap_overwritten :
    ∃ reached, initTxtHeap launchHeap (.start launchMemory) = .ok (some 0x100000) reached ∧
      ¬ HeapPrepared launchHeap launchMemory reached := by
  obtain ⟨reached, run⟩ := launchHeap_run
  have apart : SizeApart launchMemory (getTxtHeap launchHeap.heapBase) := by
    constructor <;> decide +kernel
  obtain ⟨access, written, a, touches, outside⟩ := initTxtHeap_excess apart run
  refine ⟨reached, run, fun prepared => ?_⟩
  obtain ⟨block, member, covers⟩ := prepared.writes access written a touches
  exact outside block member covers

end Result

end Sable
