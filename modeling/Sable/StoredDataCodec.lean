import Sable.Marshalling
import Sable.HeapObjects
import Sable.RequestFrames

/-!
# The codec of sealed blobs

A sealed blob is packed into a buffer of the memory and unpacked from one, where
its two byte strings go into new blocks on the heap.  What is packed is unpacked
again, whatever bytes follow it; and from any buffer, unpacking stops or finds a
blob whose packed form is a prefix of the buffer.  The two lengths come from the
buffer and can be any words: one that makes the overflow check wrap around is too
large for the heap.
-/

namespace Sable

open ByteMemory BigEndian HaltingProgram

section Unpacking

variable {σ : Type} {area : HeapArea} {blocks : List Allocation}

/-- The machine in the middle of unpacking a buffer of the memory. -/
def Machine.taking (m : Machine σ) (data size : UInt32) (pos : Nat) (mem : Mem) : Machine σ :=
  { m with
    mem := mem
    locals := { m.locals with uctx := ⟨.mem data, UInt32.ofNat pos, size⟩ } }

variable {m : Machine σ} {data size len : UInt32} {pos : Nat} {mem : Mem}

/-- The sum of the overflow check, if it does not wrap around. -/
theorem check_iff (small : pos + len.toNat < 2 ^ 32) :
    UInt32.ofNat pos + len ≤ size ↔ pos + len.toNat ≤ size.toNat := by
  have exact : (UInt32.ofNat pos).toNat = pos := UInt32.toNat_ofNat_of_lt' (by
    simp only [UInt32.size]
    omega)
  rw [UInt32.le_iff_toNat_le, UInt32.toNat_add, exact, Nat.mod_eq_of_lt small]

theorem ofNat_add_word (small : pos + len.toNat < 2 ^ 32) :
    UInt32.ofNat pos + len = UInt32.ofNat (pos + len.toNat) := by
  apply UInt32.toNat_inj.mp
  have exact : (UInt32.ofNat pos).toNat = pos := UInt32.toNat_ofNat_of_lt' (by
    simp only [UInt32.size]
    omega)
  rw [UInt32.toNat_add, exact, Nat.mod_eq_of_lt small,
    UInt32.toNat_ofNat_of_lt' small]

theorem checkUnpackOverflow_taking (check : UInt32.ofNat pos + len ≤ size) :
    checkUnpackOverflow len (m.taking data size pos mem) =
      .ok () (m.taking data size pos mem) :=
  checkUnpackOverflow_ok check

theorem checkUnpackOverflow_stops (past : ¬ UInt32.ofNat pos + len ≤ size) :
    checkUnpackOverflow len (m.taking data size pos mem) =
      .halt .exit (m.taking data size pos mem) :=
  checkUnpackOverflow_halt past

theorem unpackBytes_taking (fits : pos + len.toNat ≤ size.toNat) :
    unpackBytes len (m.taking data size pos mem) =
      .ok (read mem (data.toNat + pos) len.toNat)
        (m.taking data size (pos + len.toNat) mem) := by
  have small : pos + len.toNat < 2 ^ 32 := fits.trans_lt size.toNat_lt
  have exact : (UInt32.ofNat pos).toNat = pos := UInt32.toNat_ofNat_of_lt' (by
    simp only [UInt32.size]
    omega)
  have run := (unpackBytes_eq len (m.taking data size pos mem)).trans
    (if_pos ((check_iff small).mpr fits))
  rw [run, Machine.taking, Machine.taking]
  simp only [Machine.readBuffer, exact, ofNat_add_word small]

theorem unpackBytes_stops (small : pos + len.toNat < 2 ^ 32)
    (past : ¬ pos + len.toNat ≤ size.toNat) :
    unpackBytes len (m.taking data size pos mem) =
      .halt .exit (m.taking data size pos mem) :=
  (unpackBytes_eq len (m.taking data size pos mem)).trans
    (if_neg ((check_iff small).not.mpr past))

theorem unmarshalUINT16_given :
    (unmarshalUINT16 0 .given .null : Boot σ UInt16) = (do
      let tmp ← unpackBytes 2
      return ofBe16 tmp) := by
  simp only [unmarshalUINT16, assert, hashBytes_null_eq]
  rfl

theorem unmarshalUINT32_given :
    (unmarshalUINT32 0 .given .null : Boot σ UInt32) = (do
      let tmp ← unpackBytes 4
      return ofBe32 tmp) := by
  simp only [unmarshalUINT32, assert, hashBytes_null_eq]
  rfl

theorem unmarshalUINT16_taking (fits : pos + 2 ≤ size.toNat) :
    unmarshalUINT16 0 .given .null (m.taking data size pos mem) =
      .ok (ofBe16 (read mem (data.toNat + pos) 2)) (m.taking data size (pos + 2) mem) := by
  rw [unmarshalUINT16_given]
  have run : unpackBytes 2 (m.taking data size pos mem) = _ := unpackBytes_taking fits
  exact Prog.bind_ok run _

theorem unmarshalUINT16_stops (small : pos + 2 < 2 ^ 32) (past : ¬ pos + 2 ≤ size.toNat) :
    unmarshalUINT16 0 .given .null (m.taking data size pos mem) =
      .halt .exit (m.taking data size pos mem) := by
  rw [unmarshalUINT16_given]
  have run : unpackBytes 2 (m.taking data size pos mem) = _ := unpackBytes_stops small past
  exact Prog.bind_halt run _

theorem unmarshalUINT32_taking (fits : pos + 4 ≤ size.toNat) :
    unmarshalUINT32 0 .given .null (m.taking data size pos mem) =
      .ok (ofBe32 (read mem (data.toNat + pos) 4)) (m.taking data size (pos + 4) mem) := by
  rw [unmarshalUINT32_given]
  have run : unpackBytes 4 (m.taking data size pos mem) = _ := unpackBytes_taking fits
  exact Prog.bind_ok run _

theorem unmarshalUINT32_stops (small : pos + 4 < 2 ^ 32) (past : ¬ pos + 4 ≤ size.toNat) :
    unmarshalUINT32 0 .given .null (m.taking data size pos mem) =
      .halt .exit (m.taking data size pos mem) := by
  rw [unmarshalUINT32_given]
  have run : unpackBytes 4 (m.taking data size pos mem) = _ := unpackBytes_stops small past
  exact Prog.bind_halt run _

/-- The memory after a new block of `len` bytes was filled: it differs in the free part
of the heap only. -/
structure Filled (area : HeapArea) (blocks : List Allocation) (len : UInt32)
    (bytes : List UInt8) (mem filled : Mem) : Prop where
  layout : Layout area filled (blocks ++ [⟨area.unitAddr (endUnit 0 blocks + 1), len⟩])
  kept : ∀ a, a < area.heap.toNat + 8 * endUnit 0 blocks ∨
    area.heap.toNat + 8 * area.units ≤ a → filled a = mem a
  content : read filled (area.unitAddr (endUnit 0 blocks + 1)).toNat len.toNat = bytes

/-- The bytes lie where no free part of the heap is. -/
def Clear (area : HeapArea) (blocks : List Allocation) (start len : Nat) : Prop :=
  start + len ≤ area.heap.toNat + 8 * endUnit 0 blocks ∨
    area.heap.toNat + 8 * area.units ≤ start

/-- A block can be allocated for `len` bytes. -/
def HasRoom (area : HeapArea) (blocks : List Allocation) (len : UInt32) : Prop :=
  0 < len ∧ endUnit 0 blocks + len.toNat / 8 + 2 ≤ area.units

theorem HasRoom.lt (layout : Layout area mem blocks) (room : HasRoom area blocks len) :
    len.toNat < 2 ^ 31 := by
  have units := units_lt layout.small
  have enough := room.2
  omega

/-- Filling the block that was just allocated. -/
theorem Layout.fill {bytes : List UInt8} (layout : Layout area mem blocks)
    (room : HasRoom area blocks len) (length : bytes.length = len.toNat) :
    Filled area blocks len bytes mem
      (write (occupyNode mem (area.unitAddr (endUnit 0 blocks)) (blocksFor len))
        (area.unitAddr (endUnit 0 blocks + 1)).toNat bytes) := by
  have request := toNat_blocksFor len
  have enough : endUnit 0 blocks + (blocksFor len).toNat + 1 ≤ area.units := by
    have units := room.2
    omega
  have address := HeapArea.toNat_unitAddr
    (by omega : endUnit 0 blocks + 1 < area.units)
  have occupied := layout.occupy len enough
  have member : (⟨area.unitAddr (endUnit 0 blocks + 1), len⟩ : Allocation) ∈
      blocks ++ [⟨area.unitAddr (endUnit 0 blocks + 1), len⟩] :=
    List.mem_append_right _ List.mem_cons_self
  refine ⟨occupied.clientWrite member 0 bytes (by simp [length]), fun a outside => ?_, ?_⟩
  · rw [write_outside _ (by omega)]
    exact occupyNode_outside layout enough outside
  · rw [← length, read_write_self]

theorem allocHeap_taking (layout : Layout area mem blocks) (heap : m.heap = area.heap)
    (positive : 0 < len) :
    allocHeap len (m.taking data size pos mem) =
      if endUnit 0 blocks + (blocksFor len).toNat + 1 ≤ area.units then
        .ok (area.unitAddr (endUnit 0 blocks + 1)) (m.taking data size pos
          (occupyNode mem (area.unitAddr (endUnit 0 blocks)) (blocksFor len)))
      else .ok 0 (m.taking data size pos mem) := by
  have taken : (m.taking data size pos mem).heap = area.heap := heap
  have memory : (m.taking data size pos mem).mem = mem := rfl
  have run : alloc (m.taking data size pos mem).heap len (m.taking data size pos mem).mem =
      alloc area.heap len mem := by
    rw [taken, memory]
  rw [allocHeap, run, alloc_layout layout positive]
  by_cases enough : endUnit 0 blocks + (blocksFor len).toNat + 1 ≤ area.units
  · rw [if_pos enough, if_pos enough]
    rfl
  · rw [if_neg enough, if_neg enough]
    rfl

theorem unmarshalPtr_taking (layout : Layout area mem blocks) (heap : m.heap = area.heap)
    (fits : pos + len.toNat ≤ size.toNat) (room : HasRoom area blocks len)
    (clear : Clear area blocks (data.toNat + pos) len.toNat) :
    ∃ filled, Filled area blocks len (read mem (data.toNat + pos) len.toNat) mem filled ∧
      unmarshalPtr len .given .null (m.taking data size pos mem) =
        .ok (area.unitAddr (endUnit 0 blocks + 1))
          (m.taking data size (pos + len.toNat) filled) := by
  have small : pos + len.toNat < 2 ^ 32 := fits.trans_lt size.toNat_lt
  have exact : (UInt32.ofNat pos).toNat = pos := UInt32.toNat_ofNat_of_lt' (by
    simp only [UInt32.size]
    omega)
  have request := toNat_blocksFor len
  have enough : endUnit 0 blocks + (blocksFor len).toNat + 1 ≤ area.units := by
    have units := room.2
    omega
  have nonNull : area.unitAddr (endUnit 0 blocks + 1) ≠ 0 :=
    HeapArea.unitAddr_ne_zero (by omega)
  have allocates : allocHeap len (m.taking data size pos mem) =
      .ok (area.unitAddr (endUnit 0 blocks + 1)) (m.taking data size pos
        (occupyNode mem (area.unitAddr (endUnit 0 blocks)) (blocksFor len))) := by
    rw [allocHeap_taking layout heap room.1, if_pos enough]
  have kept : read (occupyNode mem (area.unitAddr (endUnit 0 blocks)) (blocksFor len))
      (data.toNat + pos) len.toNat = read mem (data.toNat + pos) len.toNat := by
    apply read_congr
    intro a lower upper
    refine occupyNode_outside layout enough ?_
    unfold Clear at clear
    omega
  refine ⟨_, layout.fill room (length_read ..), ?_⟩
  rw [unmarshalPtr, Prog.bind_ok (assert_ok (by decide) _),
    Prog.bind_ok (checkUnpackOverflow_taking ((check_iff small).mpr fits)),
    Prog.bind_ok allocates, Prog.bind_ok (assert_ok nonNull _), peekBytes, bind_assoc,
    Prog.bind_get, pure_bind, Prog.bind_modify, advance, Prog.bind_modify, Prog.bind_get]
  simp only [Machine.taking, Machine.readBuffer, exact, kept, ofNat_add_word small,
    hashBytes_null_eq]
  rfl

theorem unmarshalPtr_stops (layout : Layout area mem blocks) (heap : m.heap = area.heap)
    (small : pos ≤ 2 ^ 31)
    (bad : ¬ (pos + len.toNat ≤ size.toNat ∧ HasRoom area blocks len)) :
    ∃ reached, unmarshalPtr len .given .null (m.taking data size pos mem) =
      .halt .exit reached := by
  by_cases check : UInt32.ofNat pos + len ≤ size
  swap
  · refine ⟨m.taking data size pos mem, ?_⟩
    rw [unmarshalPtr, Prog.bind_ok (assert_ok (by decide) _),
      Prog.bind_halt (checkUnpackOverflow_stops check)]
  rw [unmarshalPtr, Prog.bind_ok (assert_ok (by decide) _),
    Prog.bind_ok (checkUnpackOverflow_taking check)]
  by_cases positive : 0 < len
  swap
  · have zero : len = 0 := by
      apply UInt32.toNat_inj.mp
      have none := UInt32.lt_iff_toNat_lt.not.mp positive
      simpa using none
    subst zero
    exact ⟨_, Prog.bind_halt (allocHeap_zero _) _⟩
  have full : ¬ endUnit 0 blocks + (blocksFor len).toNat + 1 ≤ area.units := by
    intro enough
    have request := toNat_blocksFor len
    have room : HasRoom area blocks len := ⟨positive, by omega⟩
    have short := room.lt layout
    exact bad ⟨(check_iff (by omega)).mp check, room⟩
  have refused : allocHeap len (m.taking data size pos mem) =
      .ok 0 (m.taking data size pos mem) := by
    rw [allocHeap_taking layout heap positive, if_neg full]
  rw [Prog.bind_ok refused]
  exact ⟨_, Prog.bind_halt (assert_halt (by simp) _) _⟩

/-- The lengths of the two byte strings in a serialised blob. -/
def sealSizeOf (bytes : List UInt8) : UInt32 :=
  ofBe32 ((bytes.drop 4).take 4)

def encSizeOf (bytes : List UInt8) : UInt32 :=
  ofBe32 ((bytes.drop (8 + (sealSizeOf bytes).toNat)).take 4)

/-- The blob that a buffer is unpacked to, with its strings in the next two blocks of the
heap. -/
def decoded (area : HeapArea) (used : Nat) (bytes : List UInt8) : TpmStoredData12 :=
  ⟨ofBe16 (bytes.take 2), ofBe16 ((bytes.drop 2).take 2), sealSizeOf bytes,
    area.unitAddr (used + 1), encSizeOf bytes,
    area.unitAddr (used + (sealSizeOf bytes).toNat / 8 + 3)⟩

/-- The buffer holds a whole blob, and its strings are not empty and fit the heap. -/
structure Decodable (area : HeapArea) (used : Nat) (bytes : List UInt8) : Prop where
  inside : 12 + (sealSizeOf bytes).toNat + (encSizeOf bytes).toNat ≤ bytes.length
  sealPositive : 0 < sealSizeOf bytes
  encPositive : 0 < encSizeOf bytes
  room : used + (sealSizeOf bytes).toNat / 8 + 2 + (encSizeOf bytes).toNat / 8 + 2 ≤ area.units

/-- A buffer in allocated memory with the given bytes, and a heap in a state that
`init_heap` and `alloc` leave it in. -/
structure BufferAt (area : HeapArea) (blocks : List Allocation) (data : UInt32)
    (bytes : List UInt8) (m : Machine σ) : Prop where
  heap : m.heap = area.heap
  layout : Layout area m.mem blocks
  content : read m.mem data.toNat bytes.length = bytes
  allocated : Clear area blocks data.toNat bytes.length
  small : bytes.length < 2 ^ 32

variable {bytes : List UInt8}

theorem BufferAt.size_eq (buffer : BufferAt area blocks data bytes m) :
    (UInt32.ofNat bytes.length).toNat = bytes.length :=
  UInt32.toNat_ofNat_of_lt' buffer.small

theorem BufferAt.field (buffer : BufferAt area blocks data bytes m) {start count : Nat}
    (inside : start + count ≤ bytes.length) :
    read m.mem (data.toNat + start) count = (bytes.drop start).take count := by
  have tail := drop_read m.mem data.toNat bytes.length start (by omega)
  rw [buffer.content] at tail
  rw [tail, take_read _ _ _ _ (by omega)]

/-- The bytes of the buffer are still there when a block of the heap was filled. -/
theorem BufferAt.field_filled (buffer : BufferAt area blocks data bytes m)
    {content : List UInt8} {filled : Mem}
    (fills : Filled area blocks len content m.mem filled) {start count : Nat}
    (inside : start + count ≤ bytes.length) :
    read filled (data.toNat + start) count = (bytes.drop start).take count := by
  rw [← buffer.field inside]
  apply read_congr
  intro a lower upper
  apply fills.kept
  have allocated := buffer.allocated
  unfold Clear at allocated
  omega

theorem endUnit_filled (ptr : UInt32) :
    endUnit 0 (blocks ++ [⟨ptr, len⟩]) = endUnit 0 blocks + len.toNat / 8 + 2 := by
  rw [endUnit_append, endUnit, endUnit, toNat_blocksFor]
  dsimp only
  omega

theorem Clear.part (clear : Clear area blocks data.toNat bytes.length) {start count : Nat}
    (inside : start + count ≤ bytes.length) :
    Clear area blocks (data.toNat + start) count := by
  unfold Clear at *
  omega

theorem Clear.filled {start count : Nat} (clear : Clear area blocks start count) (ptr : UInt32) :
    Clear area (blocks ++ [⟨ptr, len⟩]) start count := by
  unfold Clear at *
  rw [endUnit_filled]
  omega

/-- The fields in front of the first string. -/
theorem unpackStoredData12_header (buffer : BufferAt area blocks data bytes m)
    (header : 8 ≤ bytes.length) :
    unpackStoredData12 data (UInt32.ofNat bytes.length) m = (do
      let sealInfo ← unmarshalPtr (sealSizeOf bytes) .given .null
      let encDataSize ← unmarshalUINT32 0 .given .null
      let encData ← unmarshalPtr encDataSize .given .null
      return TpmStoredData12.mk (ofBe16 (bytes.take 2)) (ofBe16 ((bytes.drop 2).take 2))
        (sealSizeOf bytes) sealInfo encDataSize encData)
      (m.taking data (UInt32.ofNat bytes.length) 8 m.mem) := by
  have size := buffer.size_eq
  have start : unpackStoredData12 data (UInt32.ofNat bytes.length) m =
      unmarshalStoredData12 .given .null
        (m.taking data (UInt32.ofNat bytes.length) 0 m.mem) := rfl
  have first := buffer.field (by omega : 0 + 2 ≤ bytes.length)
  have second := buffer.field (by omega : 2 + 2 ≤ bytes.length)
  have third : ofBe32 (read m.mem (data.toNat + 4) 4) = sealSizeOf bytes :=
    congrArg ofBe32 (buffer.field (by omega))
  rw [start, unmarshalStoredData12, Prog.bind_ok (unmarshalUINT16_taking (by omega)),
    Prog.bind_ok (unmarshalUINT16_taking (by omega)),
    Prog.bind_ok (unmarshalUINT32_taking (by omega)), third, first, second]
  rfl

/-- The first string. -/
theorem unpackStoredData12_seal (buffer : BufferAt area blocks data bytes m)
    (inside : 8 + (sealSizeOf bytes).toNat ≤ bytes.length)
    (room : HasRoom area blocks (sealSizeOf bytes)) :
    ∃ filled, Filled area blocks (sealSizeOf bytes)
        ((bytes.drop 8).take (sealSizeOf bytes).toNat) m.mem filled ∧
      unpackStoredData12 data (UInt32.ofNat bytes.length) m = (do
        let encDataSize ← unmarshalUINT32 0 .given .null
        let encData ← unmarshalPtr encDataSize .given .null
        return TpmStoredData12.mk (ofBe16 (bytes.take 2)) (ofBe16 ((bytes.drop 2).take 2))
          (sealSizeOf bytes) (area.unitAddr (endUnit 0 blocks + 1)) encDataSize encData)
        (m.taking data (UInt32.ofNat bytes.length) (8 + (sealSizeOf bytes).toNat) filled) := by
  obtain ⟨filled, fills, run⟩ := unmarshalPtr_taking buffer.layout buffer.heap
    (by rw [buffer.size_eq]; exact inside) room (buffer.allocated.part inside)
  rw [buffer.field inside] at fills
  refine ⟨filled, fills, ?_⟩
  rw [unpackStoredData12_header buffer (by omega), Prog.bind_ok run]

theorem Decodable.rooms (decodable : Decodable area (endUnit 0 blocks) bytes) (ptr : UInt32) :
    HasRoom area blocks (sealSizeOf bytes) ∧
      HasRoom area (blocks ++ [⟨ptr, sealSizeOf bytes⟩]) (encSizeOf bytes) := by
  have room := decodable.room
  refine ⟨⟨decodable.sealPositive, by omega⟩, decodable.encPositive, ?_⟩
  rw [endUnit_filled]
  omega

/-- The fields of a blob follow each other. -/
theorem fields_append (bytes : List UInt8) (first second : Nat) :
    bytes.take 2 ++ (bytes.drop 2).take 2 ++ (bytes.drop 4).take 4 ++
        (bytes.drop 8).take first ++ (bytes.drop (8 + first)).take 4 ++
        (bytes.drop (12 + first)).take second =
      bytes.take (12 + first + second) := by
  have next : 8 + first + 4 = 12 + first := by omega
  rw [← List.take_add, ← List.take_add, ← List.take_add, ← List.take_add, next,
    ← List.take_add]

/-- The packed form of a blob whose strings are in two blocks that were filled one after
the other. -/
theorem storedData12Bytes_decoded {first second : Mem}
    (inside : 12 + (sealSizeOf bytes).toNat + (encSizeOf bytes).toNat ≤ bytes.length)
    (fills : Filled area blocks (sealSizeOf bytes)
      ((bytes.drop 8).take (sealSizeOf bytes).toNat) mem first)
    (fillsNext : Filled area (blocks ++ [⟨area.unitAddr (endUnit 0 blocks + 1),
        sealSizeOf bytes⟩]) (encSizeOf bytes)
      ((bytes.drop (12 + (sealSizeOf bytes).toNat)).take (encSizeOf bytes).toNat) first second)
    {reached : Machine σ} (memory : reached.mem = second) :
    storedData12Bytes reached (decoded area (endUnit 0 blocks) bytes) =
      bytes.take (12 + (sealSizeOf bytes).toNat + (encSizeOf bytes).toNat) := by
  have stored := fills.layout.stored.endUnit_le
  have content := fillsNext.content
  have kept := fillsNext.kept
  rw [endUnit_filled] at stored content kept
  have address := HeapArea.toNat_unitAddr
    (by omega : endUnit 0 blocks + 1 < area.units)
  have firstString : read second (area.unitAddr (endUnit 0 blocks + 1)).toNat
      (sealSizeOf bytes).toNat = (bytes.drop 8).take (sealSizeOf bytes).toNat := by
    rw [← fills.content]
    apply read_congr
    intro a lower upper
    exact kept a (by omega)
  have tag : be16 (ofBe16 (bytes.take 2)) = bytes.take 2 := be16_ofBe16 (by simp; omega)
  have et : be16 (ofBe16 ((bytes.drop 2).take 2)) = (bytes.drop 2).take 2 :=
    be16_ofBe16 (by simp; omega)
  have sealWord : be32 (sealSizeOf bytes) = (bytes.drop 4).take 4 :=
    be32_ofBe32 (by simp; omega)
  have encWord : be32 (encSizeOf bytes) =
      (bytes.drop (8 + (sealSizeOf bytes).toNat)).take 4 := be32_ofBe32 (by simp; omega)
  rw [storedData12Bytes, memory, ← fields_append]
  simp only [decoded]
  rw [tag, et, sealWord, encWord, firstString, content]

/-- Unpacking a buffer that holds a whole blob. -/
theorem unpackStoredData12_decodes (buffer : BufferAt area blocks data bytes m)
    (decodable : Decodable area (endUnit 0 blocks) bytes) :
    ∃ reached, unpackStoredData12 data (UInt32.ofNat bytes.length) m =
        .ok (decoded area (endUnit 0 blocks) bytes) reached ∧
      storedData12Bytes reached (decoded area (endUnit 0 blocks) bytes) =
        bytes.take (12 + (sealSizeOf bytes).toNat + (encSizeOf bytes).toNat) ∧
      ∀ a, a < area.heap.toNat + 8 * endUnit 0 blocks ∨
        area.heap.toNat + 8 * area.units ≤ a → reached.mem a = m.mem a := by
  have inside := decodable.inside
  have size := buffer.size_eq
  obtain ⟨room, roomNext⟩ := decodable.rooms (area.unitAddr (endUnit 0 blocks + 1))
  obtain ⟨first, fills, start⟩ := unpackStoredData12_seal buffer (by omega) room
  have word : ofBe32 (read first (data.toNat + (8 + (sealSizeOf bytes).toNat)) 4) =
      encSizeOf bytes := congrArg ofBe32 (buffer.field_filled fills (by omega))
  have content := buffer.field_filled fills
    (by omega : 12 + (sealSizeOf bytes).toNat + (encSizeOf bytes).toNat ≤ bytes.length)
  obtain ⟨second, fillsNext, run⟩ := unmarshalPtr_taking (m := m) fills.layout buffer.heap
    (by rw [size]; exact inside) roomNext
    ((buffer.allocated.part inside).filled (area.unitAddr (endUnit 0 blocks + 1)))
  rw [content] at fillsNext
  refine ⟨m.taking data (UInt32.ofNat bytes.length)
    (12 + (sealSizeOf bytes).toNat + (encSizeOf bytes).toNat) second, ?_,
    storedData12Bytes_decoded inside fills fillsNext rfl, ?_⟩
  · have next : 8 + (sealSizeOf bytes).toNat + 4 = 12 + (sealSizeOf bytes).toNat := by omega
    rw [endUnit_filled] at run
    rw [start, Prog.bind_ok (unmarshalUINT32_taking (by omega)), word, next, Prog.bind_ok run]
    rfl
  · intro a outside
    have kept := fillsNext.kept a (by rw [endUnit_filled]; omega)
    exact kept.trans (fills.kept a outside)

/-- Unpacking any other buffer. -/
theorem unpackStoredData12_stops (buffer : BufferAt area blocks data bytes m)
    (undecodable : ¬ Decodable area (endUnit 0 blocks) bytes) :
    ∃ reached, unpackStoredData12 data (UInt32.ofNat bytes.length) m =
      .halt .exit reached := by
  have size := buffer.size_eq
  by_cases header : 8 ≤ bytes.length
  swap
  · have start : unpackStoredData12 data (UInt32.ofNat bytes.length) m =
        unmarshalStoredData12 .given .null
          (m.taking data (UInt32.ofNat bytes.length) 0 m.mem) := rfl
    rw [start, unmarshalStoredData12]
    by_cases tag : 2 ≤ bytes.length
    swap
    · exact ⟨_, Prog.bind_halt (unmarshalUINT16_stops (by omega) (by omega)) _⟩
    rw [Prog.bind_ok (unmarshalUINT16_taking (by omega))]
    by_cases et : 4 ≤ bytes.length
    swap
    · exact ⟨_, Prog.bind_halt (unmarshalUINT16_stops (by omega) (by omega)) _⟩
    rw [Prog.bind_ok (unmarshalUINT16_taking (by omega))]
    exact ⟨_, Prog.bind_halt (unmarshalUINT32_stops (by omega) (by omega)) _⟩
  by_cases first : 8 + (sealSizeOf bytes).toNat ≤ (UInt32.ofNat bytes.length).toNat ∧
      HasRoom area blocks (sealSizeOf bytes)
  swap
  · obtain ⟨reached, run⟩ := unmarshalPtr_stops (m := m) buffer.layout buffer.heap
      (by omega) first
    rw [unpackStoredData12_header buffer header]
    exact ⟨reached, Prog.bind_halt run _⟩
  obtain ⟨inside, room⟩ := first
  rw [size] at inside
  have units := units_lt buffer.layout.small
  have enough := room.2
  obtain ⟨filled, fills, start⟩ := unpackStoredData12_seal buffer inside room
  rw [start]
  by_cases length : 12 + (sealSizeOf bytes).toNat ≤ bytes.length
  swap
  · exact ⟨_, Prog.bind_halt (unmarshalUINT32_stops (by omega) (by omega)) _⟩
  have word : ofBe32 (read filled (data.toNat + (8 + (sealSizeOf bytes).toNat)) 4) =
      encSizeOf bytes := congrArg ofBe32 (buffer.field_filled fills (by omega))
  have next : 8 + (sealSizeOf bytes).toNat + 4 = 12 + (sealSizeOf bytes).toNat := by omega
  rw [Prog.bind_ok (unmarshalUINT32_taking (by omega)), word, next]
  obtain ⟨reached, run⟩ := unmarshalPtr_stops (m := m) fills.layout buffer.heap (by omega)
    (fun second : 12 + (sealSizeOf bytes).toNat + (encSizeOf bytes).toNat ≤
        (UInt32.ofNat bytes.length).toNat ∧ _ => undecodable ⟨size ▸ second.1, room.1,
      second.2.1, by
        have enough := second.2.2
        rw [endUnit_filled] at enough
        omega⟩)
  exact ⟨reached, Prog.bind_halt run _⟩

end Unpacking

section Packing

variable {σ : Type} {m : Machine σ} {data size : UInt32} {frame bytes : List UInt8}

/-- The machine in the middle of packing a buffer of the memory. -/
def Machine.filling (m : Machine σ) (data size : UInt32) (frame : List UInt8) : Machine σ :=
  { m with
    mem := write m.mem data.toNat frame
    locals := { m.locals with pctx := ⟨.mem data, UInt32.ofNat frame.length, size⟩ } }

theorem packInit_filling :
    packInit (.mem data) size m = .ok () (m.filling data size []) := by
  rw [packInit, Prog.modify_apply, Machine.filling, write_nil]
  rfl

theorem marshalBytes_filling (buffer : data ≠ 0)
    (fits : frame.length + bytes.length ≤ size.toNat) :
    marshalBytes bytes .given .null (m.filling data size frame) =
      .ok () (m.filling data size (frame ++ bytes)) := by
  have bound := size.toNat_lt
  have length : bytes.length = (UInt32.ofNat bytes.length).toNat :=
    (UInt32.toNat_ofNat_of_lt' (by simp only [UInt32.size]; omega)).symm
  have start : (UInt32.ofNat frame.length).toNat = frame.length :=
    UInt32.toNat_ofNat_of_lt' (by simp only [UInt32.size]; omega)
  have sum : UInt32.ofNat frame.length + UInt32.ofNat bytes.length =
      UInt32.ofNat (frame ++ bytes).length := by
    rw [ofNat_add_word (by omega), ← length, List.length_append]
  have check : UInt32.ofNat frame.length + UInt32.ofNat bytes.length ≤ size :=
    (check_iff (by omega)).mpr (by omega)
  have given : (m.filling data size frame).locals.pctx.packBuffer ≠ .mem 0 := by
    simpa [Machine.filling] using buffer
  have run : packBytes bytes (m.filling data size frame) = _ :=
    (packBytes_eq given length).trans (if_pos check)
  have only : marshalBytes bytes .given .null (m.filling data size frame) =
      packBytes bytes (m.filling data size frame) := by
    rw [marshalBytes, hashBytes_null_eq]
    rfl
  rw [only, run]
  simp only [Machine.filling, Machine.writeBuffer, start, write_write_append, sum]

/-- A byte string outside of the buffer. -/
theorem marshalArray_filling {ptr len : UInt32} (buffer : data ≠ 0) (nonNull : ptr ≠ 0)
    (fits : frame.length + len.toNat ≤ size.toNat)
    (apart : ptr.toNat + len.toNat ≤ data.toNat ∨ data.toNat + frame.length ≤ ptr.toNat) :
    marshalArray ptr len .given .null (m.filling data size frame) =
      .ok () (m.filling data size (frame ++ read m.mem ptr.toNat len.toNat)) := by
  have source : read (m.filling data size frame).mem ptr.toNat len.toNat =
      read m.mem ptr.toNat len.toNat := read_write_disjoint _ apart
  rw [marshalArray, Prog.bind_ok (assert_ok nonNull _), Prog.bind_get, source]
  exact marshalBytes_filling buffer (by simpa using fits)

/-- The buffer exists and has room for the blob, whose strings exist and lie elsewhere. -/
structure Packable (m : Machine σ) (data size : UInt32) (blob : TpmStoredData12) : Prop where
  buffer : data ≠ 0
  sealInfo : blob.sealInfo ≠ 0
  encData : blob.encData ≠ 0
  fits : 12 + blob.sealInfoSize.toNat + blob.encDataSize.toNat ≤ size.toNat
  sealApart : blob.sealInfo.toNat + blob.sealInfoSize.toNat ≤ data.toNat ∨
    data.toNat + (12 + blob.sealInfoSize.toNat + blob.encDataSize.toNat) ≤ blob.sealInfo.toNat
  encApart : blob.encData.toNat + blob.encDataSize.toNat ≤ data.toNat ∨
    data.toNat + (12 + blob.sealInfoSize.toNat + blob.encDataSize.toNat) ≤ blob.encData.toNat

theorem length_storedData12Bytes (m : Machine σ) (blob : TpmStoredData12) :
    (storedData12Bytes m blob).length =
      12 + blob.sealInfoSize.toNat + blob.encDataSize.toNat := by
  simp [storedData12Bytes]
  omega

theorem toNat_sizeofStoredData12 {blob : TpmStoredData12}
    (small : 12 + blob.sealInfoSize.toNat + blob.encDataSize.toNat < 2 ^ 32) :
    (sizeofStoredData12 blob).toNat =
      12 + blob.sealInfoSize.toNat + blob.encDataSize.toNat := by
  simp [sizeofStoredData12, UInt32.toNat_add]
  omega

/-- Packing a blob writes its packed form to the buffer and returns its size. -/
theorem packStoredData12_packs {blob : TpmStoredData12} (packable : Packable m data size blob) :
    packStoredData12 data size blob m =
      .ok (sizeofStoredData12 blob) (m.filling data size (storedData12Bytes m blob)) := by
  obtain ⟨buffer, sealInfo, encData, fits, sealApart, encApart⟩ := packable
  have length := length_storedData12Bytes m blob
  have result : UInt32.ofNat (storedData12Bytes m blob).length = sizeofStoredData12 blob := by
    rw [length, ← toNat_sizeofStoredData12 (fits.trans_lt size.toNat_lt), UInt32.ofNat_toNat]
  have run : marshalStoredData12 blob .given .null (m.filling data size []) =
      .ok () (m.filling data size (storedData12Bytes m blob)) := by
    rw [marshalStoredData12, marshalUINT16, marshalUINT16, marshalUINT32, marshalUINT32,
      Prog.bind_ok (marshalBytes_filling buffer (by simp; omega)),
      Prog.bind_ok (marshalBytes_filling buffer (by simp; omega)),
      Prog.bind_ok (marshalBytes_filling buffer (by simp; omega)),
      Prog.bind_ok (marshalArray_filling buffer sealInfo (by simp; omega) (by simp; omega)),
      Prog.bind_ok (marshalBytes_filling buffer (by simp; omega)),
      marshalArray_filling buffer encData (by simp; omega) (by simp; omega)]
    simp only [storedData12Bytes, List.nil_append]
  rw [packStoredData12, Prog.bind_ok packInit_filling, Prog.bind_ok run, packFinish,
    Prog.bind_get, Prog.pure_apply]
  exact congrArg (Outcome.ok · _) result

/-- Two blobs with the same fields and the same strings. -/
structure SameBlob (m : Machine σ) (blob : TpmStoredData12) (other : Machine σ)
    (copy : TpmStoredData12) : Prop where
  tag : copy.tag = blob.tag
  et : copy.et = blob.et
  sealInfoSize : copy.sealInfoSize = blob.sealInfoSize
  encDataSize : copy.encDataSize = blob.encDataSize
  sealInfo : read other.mem copy.sealInfo.toNat copy.sealInfoSize.toNat =
    read m.mem blob.sealInfo.toNat blob.sealInfoSize.toNat
  encData : read other.mem copy.encData.toNat copy.encDataSize.toNat =
    read m.mem blob.encData.toNat blob.encDataSize.toNat

/-- Blobs with strings of the same lengths are the same if their packed forms are. -/
theorem SameBlob.of_bytes {blob copy : TpmStoredData12} {other : Machine σ}
    (sealInfoSize : copy.sealInfoSize = blob.sealInfoSize)
    (encDataSize : copy.encDataSize = blob.encDataSize)
    (same : storedData12Bytes other copy = storedData12Bytes m blob) :
    SameBlob m blob other copy := by
  rw [storedData12Bytes, storedData12Bytes] at same
  obtain ⟨front, encData⟩ := List.append_inj' same (by simp [encDataSize])
  obtain ⟨front, -⟩ := List.append_inj' front (by simp)
  obtain ⟨front, sealInfo⟩ := List.append_inj' front (by simp [sealInfoSize])
  obtain ⟨front, -⟩ := List.append_inj' front (by simp)
  obtain ⟨tag, et⟩ := List.append_inj' front (by simp)
  have tagWord := congrArg ofBe16 tag
  have etWord := congrArg ofBe16 et
  rw [ofBe16_be16, ofBe16_be16] at tagWord etWord
  exact ⟨tagWord, etWord, sealInfoSize, encDataSize, sealInfo, encData⟩

end Packing

section Codec

variable {σ : Type} {area : HeapArea} {blocks : List Allocation} {m reader : Machine σ}
  {data size : UInt32} {blob : TpmStoredData12} {trailing bytes : List UInt8}

theorem sealSizeOf_packed : sealSizeOf (storedData12Bytes m blob ++ trailing) =
    blob.sealInfoSize := by
  have front : (be16 blob.tag ++ be16 blob.et).length = 4 := by simp
  rw [sealSizeOf, storedData12Bytes]
  simp only [List.append_assoc]
  rw [← List.append_assoc (be16 blob.tag), List.drop_left' front,
    List.take_left' (length_be32 _), ofBe32_be32]

theorem encSizeOf_packed : encSizeOf (storedData12Bytes m blob ++ trailing) =
    blob.encDataSize := by
  have front : (be16 blob.tag ++ be16 blob.et ++ be32 blob.sealInfoSize ++
      read m.mem blob.sealInfo.toNat blob.sealInfoSize.toNat).length =
        8 + blob.sealInfoSize.toNat := by
    simp
    omega
  rw [encSizeOf, sealSizeOf_packed, storedData12Bytes, List.append_assoc, List.append_assoc,
    List.drop_left' front, List.take_left' (length_be32 _), ofBe32_be32]

/-- What was packed is unpacked again, whatever follows it. -/
theorem unpackStoredData12_packed
    (buffer : BufferAt area blocks data (storedData12Bytes m blob ++ trailing) reader)
    (sealPositive : 1 ≤ blob.sealInfoSize) (encPositive : 1 ≤ blob.encDataSize)
    (room : endUnit 0 blocks + blob.sealInfoSize.toNat / 8 + 2 +
      blob.encDataSize.toNat / 8 + 2 ≤ area.units) :
    ∃ copy reached,
      unpackStoredData12 data
        (UInt32.ofNat (storedData12Bytes m blob ++ trailing).length) reader =
          .ok copy reached ∧ SameBlob m blob reached copy := by
  have length := length_storedData12Bytes m blob
  have decodable : Decodable area (endUnit 0 blocks)
      (storedData12Bytes m blob ++ trailing) := by
    constructor
    · rw [sealSizeOf_packed, encSizeOf_packed, List.length_append]
      omega
    · rw [sealSizeOf_packed]
      exact sealPositive
    · rw [encSizeOf_packed]
      exact encPositive
    · rw [sealSizeOf_packed, encSizeOf_packed]
      exact room
  obtain ⟨reached, run, packed, -⟩ := unpackStoredData12_decodes buffer decodable
  refine ⟨_, reached, run, SameBlob.of_bytes sealSizeOf_packed encSizeOf_packed ?_⟩
  rw [packed, sealSizeOf_packed, encSizeOf_packed, ← length, List.take_left]

theorem read_filling (frame : List UInt8) :
    read (m.filling data size frame).mem data.toNat frame.length = frame :=
  read_write_self m.mem data.toNat frame

/-- Unpacking a buffer with arbitrary bytes stops, or it finds a blob that depends on the
bytes of the buffer and on the blocks of the heap only, and packing this blob again gives
a prefix of the buffer. -/
theorem unpackStoredData12_prefix (buffer : BufferAt area blocks data bytes m) :
    (∃ reached, unpackStoredData12 data (UInt32.ofNat bytes.length) m =
        .halt .exit reached) ∨
      ∃ blob reached, unpackStoredData12 data (UInt32.ofNat bytes.length) m =
          .ok blob reached ∧
        12 + blob.sealInfoSize.toNat + blob.encDataSize.toNat ≤ bytes.length ∧
        (∀ other : Machine σ, BufferAt area blocks data bytes other →
          ∃ otherReached, unpackStoredData12 data (UInt32.ofNat bytes.length) other =
              .ok blob otherReached ∧
            storedData12Bytes otherReached blob = storedData12Bytes reached blob) ∧
        ∀ target targetSize, Packable reached target targetSize blob →
          ∃ count repacked, packStoredData12 target targetSize blob reached =
              .ok count repacked ∧
            read repacked.mem target.toNat count.toNat <+: bytes := by
  by_cases decodable : Decodable area (endUnit 0 blocks) bytes
  · obtain ⟨reached, run, packed, -⟩ := unpackStoredData12_decodes buffer decodable
    refine .inr ⟨_, reached, run, decodable.inside, fun other same => ?_,
      fun target targetSize packable => ?_⟩
    · obtain ⟨otherReached, otherRun, otherPacked, -⟩ :=
        unpackStoredData12_decodes same decodable
      exact ⟨otherReached, otherRun, otherPacked.trans packed.symm⟩
    · refine ⟨_, _, packStoredData12_packs packable, ?_⟩
      rw [toNat_sizeofStoredData12 (packable.fits.trans_lt targetSize.toNat_lt),
        ← length_storedData12Bytes reached, read_filling, packed]
      exact List.take_prefix _ bytes
  · exact .inl (unpackStoredData12_stops buffer decodable)

/-- The codec of sealed blobs. -/
theorem storedData12_codec (area : HeapArea) :
    (∀ (m : Machine σ) data size blob, Packable m data size blob →
      ∃ packed, packStoredData12 data size blob m = .ok (sizeofStoredData12 blob) packed ∧
        (sizeofStoredData12 blob).toNat = (storedData12Bytes m blob).length ∧
        read packed.mem data.toNat (sizeofStoredData12 blob).toNat =
          storedData12Bytes m blob) ∧
    (∀ (m reader : Machine σ) blocks data blob trailing,
      BufferAt area blocks data (storedData12Bytes m blob ++ trailing) reader →
      1 ≤ blob.sealInfoSize → 1 ≤ blob.encDataSize →
      endUnit 0 blocks + blob.sealInfoSize.toNat / 8 + 2 + blob.encDataSize.toNat / 8 + 2 ≤
        area.units →
      ∃ copy reached,
        unpackStoredData12 data
          (UInt32.ofNat (storedData12Bytes m blob ++ trailing).length) reader =
            .ok copy reached ∧ SameBlob m blob reached copy) ∧
    (∀ (m : Machine σ) blocks data bytes, BufferAt area blocks data bytes m →
      (∃ reached, unpackStoredData12 data (UInt32.ofNat bytes.length) m =
          .halt .exit reached) ∨
        ∃ blob reached, unpackStoredData12 data (UInt32.ofNat bytes.length) m =
            .ok blob reached ∧
          12 + blob.sealInfoSize.toNat + blob.encDataSize.toNat ≤ bytes.length ∧
          (∀ other : Machine σ, BufferAt area blocks data bytes other →
            ∃ otherReached, unpackStoredData12 data (UInt32.ofNat bytes.length) other =
                .ok blob otherReached ∧
              storedData12Bytes otherReached blob = storedData12Bytes reached blob) ∧
          ∀ target targetSize, Packable reached target targetSize blob →
            ∃ count repacked, packStoredData12 target targetSize blob reached =
                .ok count repacked ∧
              read repacked.mem target.toNat count.toNat <+: bytes) := by
  refine ⟨fun m data size blob packable => ?_, fun m reader blocks data blob trailing buffer
    sealPositive encPositive room => unpackStoredData12_packed buffer sealPositive encPositive
      room, fun m blocks data bytes buffer => unpackStoredData12_prefix buffer⟩
  have small := packable.fits.trans_lt size.toNat_lt
  refine ⟨_, packStoredData12_packs packable, ?_, ?_⟩
  · rw [toNat_sizeofStoredData12 small, length_storedData12Bytes]
  · rw [toNat_sizeofStoredData12 small, ← length_storedData12Bytes m, read_filling]

/-- A heap of a page. -/
def pageArea : HeapArea where
  heap := 0x10000
  size := 0x1000
  nonNull := by decide
  fits := by decide

/-- A machine with this heap and the given bytes below it. -/
def pageMachine (bytes : List UInt8) : Machine Unit :=
  { Machine.blank () with
    heap := 0x10000
    mem := MemNode.store (write (fun _ => 0) 0x400 bytes) 0x10000 ⟨0x1FF, 0⟩ }

theorem pageMachine_layout (bytes : List UInt8) :
    Layout pageArea (pageMachine bytes).mem [] := by
  have run : initHeap pageArea.heap pageArea.size (write (fun _ => 0) 0x400 bytes) =
      .ok () (pageMachine bytes).mem := rfl
  exact initHeap_layout (by decide) run

/-- A small blob, packed and unpacked again with a byte behind it. -/
theorem storedData12_codec_page :
    (∃ packed, packStoredData12 0x400 64 ⟨0x16, 0, 3, 0x200, 5, 0x300⟩ (pageMachine []) =
        .ok 20 packed ∧
      read packed.mem 0x400 20 =
        storedData12Bytes (pageMachine []) ⟨0x16, 0, 3, 0x200, 5, 0x300⟩) ∧
    ∃ copy reached,
      unpackStoredData12 0x400 21 (pageMachine
        (storedData12Bytes (pageMachine []) ⟨0x16, 0, 3, 0x200, 5, 0x300⟩ ++ [9])) =
          .ok copy reached ∧
        SameBlob (pageMachine []) ⟨0x16, 0, 3, 0x200, 5, 0x300⟩ reached copy := by
  obtain ⟨packs, unpacks, -⟩ := storedData12_codec (σ := Unit) pageArea
  constructor
  · obtain ⟨packed, run, -, content⟩ := packs (pageMachine []) 0x400 64
      ⟨0x16, 0, 3, 0x200, 5, 0x300⟩ ⟨by decide, by decide, by decide, by decide, by decide,
        by decide⟩
    exact ⟨packed, run, content⟩
  · refine unpacks (pageMachine []) _ [] 0x400 ⟨0x16, 0, 3, 0x200, 5, 0x300⟩ [9]
      ⟨rfl, pageMachine_layout _, ?_, ?_, ?_⟩ (by decide) (by decide) (by decide)
    · decide +kernel
    · exact .inl (by decide)
    · decide

end Codec

end Sable

