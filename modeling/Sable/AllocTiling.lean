import Sable.Alloc
import Mathlib.Data.Nat.Bitwise

/-!
# The node list of the heap

Every node of an initialised heap is occupied except possibly the last one, so
the heap is described by the list of the blocks handed out so far: their nodes
follow each other without gaps and one free node covers the rest.  This file
shows that `alloc` extends such a layout, that clients cannot damage it by
writing to their own blocks, and that the list allocator is a bump allocator.
-/

namespace Sable

open ByteMemory BigEndian HaltingProgram

section Flag

variable (word : UInt32)

theorem toNat_occupiedFlag : occupiedFlag.toNat = 2 ^ 31 :=
  rfl

theorem and_occupiedFlag_ne_zero :
    word &&& occupiedFlag ≠ 0 ↔ 2147483648 ≤ word.toNat := by
  have bounded := word.toNat_lt
  rw [ne_eq, ← UInt32.toNat_inj, UInt32.toNat_and, toNat_occupiedFlag,
    Nat.and_two_pow]
  simp [Nat.testBit_eq_decide_div_mod_eq]
  omega

theorem toNat_and_not_occupiedFlag :
    (word &&& ~~~occupiedFlag).toNat = word.toNat % 2147483648 := by
  rw [UInt32.toNat_and]
  exact Nat.and_two_pow_sub_one_eq_mod word.toNat 31

variable {word}

theorem toNat_or_occupiedFlag (small : word.toNat < 2147483648) :
    (word ||| occupiedFlag).toNat = word.toNat + 2147483648 := by
  have disjoint : 2 ^ 31 * 1 + word.toNat = 2 ^ 31 * 1 ||| word.toNat :=
    Nat.two_pow_add_eq_or_of_lt small 1
  rw [Nat.mul_one] at disjoint
  rw [UInt32.toNat_or, toNat_occupiedFlag, Nat.or_comm]
  omega

end Flag

namespace MemNode

variable {node : MemNode}

theorem toNat_units (node : MemNode) :
    node.units.toNat = node.size.toNat % 2147483648 :=
  toNat_and_not_occupiedFlag node.size

theorem occupied_iff (node : MemNode) :
    node.occupied = true ↔ 2147483648 ≤ node.size.toNat := by
  rw [occupied, decide_eq_true_iff, and_occupiedFlag_ne_zero]

theorem load_congr {first second : Mem} {addr : UInt32}
    (agree : ∀ a, addr.toNat ≤ a → a < addr.toNat + 8 → first a = second a) :
    load first addr = load second addr := by
  rw [load, load, load32_congr fun a lower upper => agree a lower (by omega),
    load32_congr fun a lower upper => agree a (by omega) (by omega)]

theorem store_outside (mem : Mem) (addr : UInt32) (node : MemNode) {a : Nat}
    (outside : a < addr.toNat ∨ addr.toNat + 8 ≤ a) :
    store mem addr node a = mem a :=
  write_outside mem (by simpa using outside)

@[simp]
theorem load_store (mem : Mem) (addr : UInt32) (node : MemNode) :
    load (store mem addr node) addr = node := by
  have split : store mem addr node =
      write (write mem addr.toNat (le32 node.size)) (addr.toNat + 4)
        (le32 node.next) := by
    rw [store, ← write_write_append, length_le32]
  rw [split, load, load32_write_le32,
    load32_write_disjoint _ (by omega), load32_write_le32]

theorem load_store_of_disjoint (mem : Mem) {addr other : UInt32} (node : MemNode)
    (disjoint : other.toNat + 8 ≤ addr.toNat ∨ addr.toNat + 8 ≤ other.toNat) :
    load (store mem addr node) other = load mem other :=
  load_congr fun _ lower upper => store_outside mem addr node (by omega)

end MemNode

/-- A heap object of the C program: not at the null address and inside the
32-bit address space. -/
structure HeapArea where
  heap : UInt32
  size : UInt32
  nonNull : heap ≠ 0
  fits : heap.toNat + size.toNat ≤ 4294967296

/-- A block that a client got from `alloc`, with the size it asked for. -/
structure Allocation where
  ptr : UInt32
  size : UInt32
  deriving DecidableEq

/-- The units behind the header that `alloc` reserves for a request. -/
def blocksFor (size : UInt32) : UInt32 :=
  (size >>> 3) + 1

theorem toNat_shiftRight_three (word : UInt32) :
    (word >>> 3).toNat = word.toNat / 8 := by
  rw [UInt32.toNat_shiftRight, Nat.shiftRight_eq_div_pow]
  simp

theorem toNat_blocksFor (size : UInt32) :
    (blocksFor size).toNat = size.toNat / 8 + 1 := by
  have bounded := size.toNat_lt
  rw [blocksFor, UInt32.toNat_add, toNat_shiftRight_three]
  simp
  omega

namespace Allocation

/-- The length of the block behind the node header, in bytes. -/
def extent (block : Allocation) : Nat :=
  8 * (blocksFor block.size).toNat

theorem size_lt_extent (block : Allocation) :
    block.size.toNat < block.extent := by
  rw [extent, toNat_blocksFor]
  omega

end Allocation

namespace HeapArea

variable (area : HeapArea)

/-- The number of eight-byte units of the heap. -/
def units : Nat :=
  area.size.toNat / 8

/-- The address of a unit of the heap. -/
def unitAddr (pos : Nat) : UInt32 :=
  UInt32.ofNat (area.heap.toNat + 8 * pos)

/-- The `next` pointer of a node that ends before the unit `pos`. -/
def link (pos : Nat) : UInt32 :=
  if pos < area.units then area.unitAddr pos else 0

variable {area} {pos : Nat}

theorem heap_pos : 0 < area.heap.toNat := by
  have nonzero : area.heap.toNat ≠ 0 := fun eq =>
    area.nonNull (UInt32.toNat_inj.mp eq)
  omega

theorem unitAddr_le (bounded : pos ≤ area.units) :
    area.heap.toNat + 8 * pos ≤ area.heap.toNat + area.size.toNat := by
  have lower : 8 * (area.size.toNat / 8) ≤ area.size.toNat := Nat.mul_div_le _ _
  unfold units at bounded
  omega

theorem toNat_unitAddr (inside : pos < area.units) :
    (area.unitAddr pos).toNat = area.heap.toNat + 8 * pos := by
  have bounded := unitAddr_le inside
  have fits := area.fits
  rw [unitAddr, UInt32.toNat_ofNat_of_lt']
  simp only [UInt32.size]
  omega

theorem unitAddr_ne_zero (inside : pos < area.units) : area.unitAddr pos ≠ 0 := by
  intro eq
  have value := toNat_unitAddr inside
  have positive := area.heap_pos
  rw [eq] at value
  simp at value
  omega

theorem unitAddr_zero : area.unitAddr 0 = area.heap := by
  simp [unitAddr]

theorem link_of_lt (inside : pos < area.units) : area.link pos = area.unitAddr pos :=
  if_pos inside

end HeapArea

section Layout

variable (area : HeapArea)

/-- The node header that `alloc` writes for a block at unit `pos`. -/
def occupiedNode (pos : Nat) (block : Allocation) : MemNode :=
  ⟨blocksFor block.size ||| occupiedFlag,
    area.link (pos + (blocksFor block.size).toNat + 1)⟩

/-- The header of the free node that covers the units from `pos` on. -/
def freeNode (pos : Nat) : MemNode :=
  ⟨UInt32.ofNat (area.units - pos - 1), 0⟩

/-- The first unit behind the given blocks when their nodes start at `pos`. -/
def endUnit (pos : Nat) : List Allocation → Nat
  | [] => pos
  | block :: blocks => endUnit (pos + (blocksFor block.size).toNat + 1) blocks

/-- The nodes of the given blocks are stored one after the other from unit
`pos` on and stay inside the heap. -/
def BlocksFrom (mem : Mem) (pos : Nat) : List Allocation → Prop
  | [] => pos ≤ area.units
  | block :: blocks =>
      block.ptr = area.unitAddr (pos + 1) ∧ pos < area.units ∧
        MemNode.load mem (area.unitAddr pos) = occupiedNode area pos block ∧
        BlocksFrom mem (pos + (blocksFor block.size).toNat + 1) blocks

/-- The whole heap: the nodes of the blocks, and a free node behind them unless
the heap is used up. -/
structure Layout (mem : Mem) (blocks : List Allocation) : Prop where
  nonempty : 0 < area.units
  small : area.size.toNat < 2147483648
  stored : BlocksFrom area mem 0 blocks
  free : endUnit 0 blocks < area.units →
    MemNode.load mem (area.unitAddr (endUnit 0 blocks)) =
      freeNode area (endUnit 0 blocks)

variable {area} {mem : Mem} {pos : Nat} {blocks : List Allocation}

theorem endUnit_append (pos : Nat) (blocks more : List Allocation) :
    endUnit pos (blocks ++ more) = endUnit (endUnit pos blocks) more := by
  induction blocks generalizing pos with
  | nil => rfl
  | cons block blocks ih => exact ih _

theorem le_endUnit (pos : Nat) (blocks : List Allocation) :
    pos + blocks.length ≤ endUnit pos blocks := by
  induction blocks generalizing pos with
  | nil => exact Nat.le_refl pos
  | cons block blocks ih =>
      have rest := ih (pos + (blocksFor block.size).toNat + 1)
      simp only [List.length_cons, endUnit]
      omega

theorem BlocksFrom.endUnit_le (stored : BlocksFrom area mem pos blocks) :
    endUnit pos blocks ≤ area.units := by
  induction blocks generalizing pos with
  | nil => exact stored
  | cons block blocks ih => exact ih stored.2.2.2

theorem blocksFor_pos (size : UInt32) : 0 < (blocksFor size).toNat := by
  rw [toNat_blocksFor]
  omega

theorem BlocksFrom.head_bounds {block : Allocation}
    (stored : BlocksFrom area mem pos (block :: blocks)) :
    block.ptr.toNat = area.heap.toNat + 8 * (pos + 1) ∧
      block.ptr.toNat + block.extent =
        area.heap.toNat + 8 * (pos + (blocksFor block.size).toNat + 1) := by
  have bounded := stored.endUnit_le
  have behind := le_endUnit (pos + (blocksFor block.size).toNat + 1) blocks
  have positive := blocksFor_pos block.size
  simp only [endUnit] at bounded
  have address : block.ptr.toNat = area.heap.toNat + 8 * (pos + 1) := by
    rw [stored.1, HeapArea.toNat_unitAddr (by omega)]
  rw [Allocation.extent]
  omega

/-- A block lies behind the start of the first node and ends before the unit
behind the last one. -/
theorem BlocksFrom.mem_bounds {block : Allocation}
    (stored : BlocksFrom area mem pos blocks) (member : block ∈ blocks) :
    area.heap.toNat + 8 * (pos + 1) ≤ block.ptr.toNat ∧
      block.ptr.toNat + block.extent ≤
        area.heap.toNat + 8 * endUnit pos blocks := by
  induction blocks generalizing pos with
  | nil => cases member
  | cons first blocks ih =>
      have behind := le_endUnit (pos + (blocksFor first.size).toNat + 1) blocks
      rcases List.mem_cons.mp member with rfl | later
      · obtain ⟨start, stop⟩ := stored.head_bounds
        simp only [endUnit]
        omega
      · obtain ⟨lower, upper⟩ := ih stored.2.2.2 later
        simp only [endUnit]
        omega

/-- Only the headers of the nodes matter for the layout, so that a memory which
differs inside the blocks has the same layout. -/
theorem BlocksFrom.congr {other : Mem} (stored : BlocksFrom area mem pos blocks)
    (agree : ∀ a, area.heap.toNat + 8 * pos ≤ a →
      a < area.heap.toNat + 8 * endUnit pos blocks →
      (∀ block ∈ blocks,
        a < block.ptr.toNat ∨ block.ptr.toNat + block.extent ≤ a) →
      other a = mem a) :
    BlocksFrom area other pos blocks := by
  induction blocks generalizing pos with
  | nil => exact stored
  | cons block blocks ih =>
      obtain ⟨start, stop⟩ := stored.head_bounds
      obtain ⟨ptr, inside, header, rest⟩ := stored
      have behind := le_endUnit (pos + (blocksFor block.size).toNat + 1) blocks
      have address := HeapArea.toNat_unitAddr inside
      simp only [endUnit] at agree
      refine ⟨ptr, inside, ?_, ih rest ?_⟩
      · rw [← header]
        apply MemNode.load_congr
        intro a lower upper
        apply agree a (by omega) (by omega)
        intro later member
        rcases List.mem_cons.mp member with rfl | member
        · omega
        · have bounds := rest.mem_bounds member
          omega
      · intro a lower upper outside
        apply agree a (by omega) upper
        intro later member
        rcases List.mem_cons.mp member with rfl | member
        · omega
        · exact outside later member

theorem BlocksFrom.append {block : Allocation}
    (stored : BlocksFrom area mem pos blocks)
    (last : BlocksFrom area mem (endUnit pos blocks) [block]) :
    BlocksFrom area mem pos (blocks ++ [block]) := by
  induction blocks generalizing pos with
  | nil => exact last
  | cons first blocks ih =>
      exact ⟨stored.1, stored.2.1, stored.2.2.1, ih stored.2.2.2 last⟩

theorem BlocksFrom.pairwise (stored : BlocksFrom area mem pos blocks) :
    blocks.Pairwise fun first second =>
      first.ptr.toNat + first.extent ≤ second.ptr.toNat := by
  induction blocks generalizing pos with
  | nil => exact List.Pairwise.nil
  | cons block blocks ih =>
      refine List.Pairwise.cons ?_ (ih stored.2.2.2)
      intro later member
      have stop := stored.head_bounds.2
      have start := (BlocksFrom.mem_bounds stored.2.2.2 member).1
      omega

end Layout

section Search

variable {area : HeapArea} {mem : Mem} {pos : Nat} {blocks : List Allocation}

theorem units_lt (small : area.size.toNat < 2147483648) : area.units < 268435456 := by
  unfold HeapArea.units
  omega

theorem occupied_occupiedNode (area : HeapArea) (pos : Nat) (block : Allocation) :
    (occupiedNode area pos block).occupied = true := by
  have bounded := block.size.toNat_lt
  rw [MemNode.occupied_iff, occupiedNode,
    toNat_or_occupiedFlag (by rw [toNat_blocksFor]; omega)]
  omega

theorem toNat_units_occupiedNode (area : HeapArea) (pos : Nat)
    (block : Allocation) :
    (occupiedNode area pos block).units.toNat = (blocksFor block.size).toNat := by
  have bounded := block.size.toNat_lt
  have blocks := toNat_blocksFor block.size
  rw [MemNode.toNat_units, occupiedNode, toNat_or_occupiedFlag (by omega)]
  omega

theorem toNat_size_freeNode (small : area.size.toNat < 2147483648) :
    (freeNode area pos).size.toNat = area.units - pos - 1 := by
  have bounded := units_lt small
  rw [freeNode, UInt32.toNat_ofNat_of_lt']
  simp only [UInt32.size]
  omega

theorem occupied_freeNode (small : area.size.toNat < 2147483648) :
    (freeNode area pos).occupied = false := by
  have bounded := units_lt small
  rw [← Bool.not_eq_true, MemNode.occupied_iff, toNat_size_freeNode small]
  omega

theorem toNat_units_freeNode (small : area.size.toNat < 2147483648) :
    (freeNode area pos).units.toNat = area.units - pos - 1 := by
  have bounded := units_lt small
  rw [MemNode.toNat_units, toNat_size_freeNode small]
  omega

/-- The search passes over the occupied nodes and decides at the free one. -/
theorem findNode_blocksFrom (small : area.size.toNat < 2147483648)
    (stored : BlocksFrom area mem pos blocks)
    (free : endUnit pos blocks < area.units →
      MemNode.load mem (area.unitAddr (endUnit pos blocks)) =
        freeNode area (endUnit pos blocks))
    (request : UInt32) (positive : 0 < request.toNat) (fuel : Nat)
    (enough : blocks.length + 1 < fuel) :
    findNode mem request fuel (area.link pos) =
      some (if endUnit pos blocks + request.toNat + 1 ≤ area.units then
        area.unitAddr (endUnit pos blocks) else 0) := by
  induction blocks generalizing pos fuel with
  | nil =>
      rw [endUnit] at free ⊢
      obtain ⟨fuel, rfl⟩ : ∃ rest, fuel = rest + 2 :=
        ⟨fuel - 2, by simp at enough; omega⟩
      by_cases inside : pos < area.units
      · rw [HeapArea.link_of_lt inside, findNode,
          if_neg (HeapArea.unitAddr_ne_zero inside), free inside]
        simp only [occupied_freeNode small, Bool.false_eq_true, or_false,
          gt_iff_lt, UInt32.lt_iff_toNat_lt, toNat_units_freeNode small]
        by_cases room : pos + request.toNat + 1 ≤ area.units
        · rw [if_neg (by omega), if_pos room]
        · rw [if_pos (by omega), if_neg room]
          simp [freeNode, findNode]
      · rw [HeapArea.link, if_neg inside, if_neg (by omega)]
        simp [findNode]
  | cons block blocks ih =>
      obtain ⟨-, inside, header, rest⟩ := stored
      obtain ⟨fuel, rfl⟩ : ∃ rest, fuel = rest + 1 :=
        ⟨fuel - 1, by simp at enough; omega⟩
      rw [HeapArea.link_of_lt inside, findNode,
        if_neg (HeapArea.unitAddr_ne_zero inside), header, if_pos]
      · exact ih rest free fuel (by simp at enough; omega)
      · exact Or.inr (occupied_occupiedNode area pos block)

end Search

section Steps

variable {area : HeapArea} {mem : Mem} {pos : Nat} {blocks : List Allocation}

theorem unitAddr_add (request : UInt32)
    (inside : pos + request.toNat + 1 < area.units) :
    area.unitAddr pos + 8 * (request + 1) =
      area.unitAddr (pos + request.toNat + 1) := by
  apply UInt32.toNat_inj.mp
  have bounded := HeapArea.unitAddr_le (Nat.succ_le_of_lt inside)
  have fits := area.fits
  rw [HeapArea.toNat_unitAddr inside, UInt32.toNat_add,
    HeapArea.toNat_unitAddr (by omega), UInt32.toNat_mul, UInt32.toNat_add]
  simp
  omega

theorem remainder_eq_freeNode (small : area.size.toNat < 2147483648)
    (request : UInt32) (inside : pos + request.toNat + 1 < area.units) :
    (⟨((freeNode area pos).units - (request + 1)) &&& ~~~occupiedFlag,
        (freeNode area pos).next⟩ : MemNode) =
      freeNode area (pos + request.toNat + 1) := by
  have bounded := units_lt small
  have size : (((freeNode area pos).units - (request + 1)) &&&
      ~~~occupiedFlag).toNat =
        (freeNode area (pos + request.toNat + 1)).size.toNat := by
    have succ : (request + 1).toNat = request.toNat + 1 := toNat_add_one (by omega)
    rw [toNat_and_not_occupiedFlag, UInt32.toNat_sub_of_le, succ,
      toNat_units_freeNode small, toNat_size_freeNode small]
    · omega
    · rw [UInt32.le_iff_toNat_le, succ, toNat_units_freeNode small]
      omega
  rw [freeNode] at size ⊢
  exact congrArg (MemNode.mk · 0) (UInt32.toNat_inj.mp size)

/-- Occupying the free node writes the header of the new block and, if units
are left over, the header of a free node behind it. -/
theorem occupyNode_freeNode (small : area.size.toNat < 2147483648)
    (inside : pos < area.units)
    (free : MemNode.load mem (area.unitAddr pos) = freeNode area pos)
    (block : Allocation)
    (room : pos + (blocksFor block.size).toNat + 1 ≤ area.units) :
    occupyNode mem (area.unitAddr pos) (blocksFor block.size) =
      MemNode.store
        (if pos + (blocksFor block.size).toNat + 1 < area.units then
          MemNode.store mem
            (area.unitAddr (pos + (blocksFor block.size).toNat + 1))
            (freeNode area (pos + (blocksFor block.size).toNat + 1))
        else mem)
        (area.unitAddr pos) (occupiedNode area pos block) := by
  have capacity : (freeNode area pos).units.toNat = area.units - pos - 1 :=
    toNat_units_freeNode small
  simp only [occupyNode, free, UInt32.lt_iff_toNat_lt, capacity, occupiedNode]
  by_cases left : pos + (blocksFor block.size).toNat + 1 < area.units
  · rw [if_pos (by omega), if_pos left, remainder_eq_freeNode small _ left,
      unitAddr_add _ left, HeapArea.link_of_lt left]
  · rw [if_neg (by omega), if_neg left, HeapArea.link, if_neg left, freeNode]

theorem Layout.occupy (layout : Layout area mem blocks) (size : UInt32)
    (room : endUnit 0 blocks + (blocksFor size).toNat + 1 ≤ area.units) :
    Layout area
      (occupyNode mem (area.unitAddr (endUnit 0 blocks)) (blocksFor size))
      (blocks ++ [⟨area.unitAddr (endUnit 0 blocks + 1), size⟩]) := by
  obtain ⟨nonempty, small, stored, free⟩ := layout
  generalize used : endUnit 0 blocks = pos at *
  have positive := blocksFor_pos size
  have inside : pos < area.units := by omega
  have address := HeapArea.toNat_unitAddr inside
  let block : Allocation := ⟨area.unitAddr (pos + 1), size⟩
  rw [occupyNode_freeNode small inside (free inside) block room]
  set after := if pos + (blocksFor block.size).toNat + 1 < area.units then _ else mem
    with afterEq
  have kept : ∀ a, a < area.heap.toNat + 8 * pos → after a = mem a := by
    intro a below
    rw [afterEq]
    split
    · rename_i left
      have next := HeapArea.toNat_unitAddr left
      exact MemNode.store_outside _ _ _ (by omega)
    · rfl
  have stored' : BlocksFrom area
      (MemNode.store after (area.unitAddr pos) (occupiedNode area pos block)) 0
      blocks := by
    apply stored.congr
    intro a _ upper _
    rw [used] at upper
    rw [MemNode.store_outside _ _ _ (by omega), kept a upper]
  refine ⟨nonempty, small, stored'.append ?_, ?_⟩
  · rw [used]
    exact ⟨rfl, inside, MemNode.load_store _ _ _, room⟩
  · rw [endUnit_append, used]
    intro left
    have left : pos + (blocksFor block.size).toNat + 1 < area.units := left
    have next := HeapArea.toNat_unitAddr left
    change MemNode.load _ (area.unitAddr (pos + (blocksFor block.size).toNat + 1)) =
      freeNode area (pos + (blocksFor block.size).toNat + 1)
    rw [MemNode.load_store_of_disjoint _ _ (by omega), afterEq, if_pos left,
      MemNode.load_store]

theorem alloc_of_findNode {heap size found : UInt32} (positive : 0 < size)
    (search : findNode mem (blocksFor size) (2 ^ 32) heap = some found) :
    alloc heap size mem =
      if found = 0 then .ok 0 mem
      else .ok (found + 8) (occupyNode mem found (blocksFor size)) := by
  rw [blocksFor] at search
  rw [alloc, if_pos positive, Prog.bind_get]
  simp only [search]
  split
  · rfl
  · rfl

/-- What `alloc` does on a heap with a layout: it hands out the units behind the
occupied nodes, or returns null and leaves the memory alone. -/
theorem alloc_layout (layout : Layout area mem blocks) {size : UInt32}
    (positive : 0 < size) :
    alloc area.heap size mem =
      if endUnit 0 blocks + (blocksFor size).toNat + 1 ≤ area.units then
        .ok (area.unitAddr (endUnit 0 blocks + 1))
          (occupyNode mem (area.unitAddr (endUnit 0 blocks)) (blocksFor size))
      else .ok 0 mem := by
  have bounded := units_lt layout.small
  have length := le_endUnit 0 blocks
  have inside := layout.stored.endUnit_le
  have found := findNode_blocksFrom layout.small layout.stored layout.free
    (blocksFor size) (blocksFor_pos size) (2 ^ 32) (by omega)
  rw [HeapArea.link_of_lt layout.nonempty, HeapArea.unitAddr_zero] at found
  rw [alloc_of_findNode positive found]
  by_cases room : endUnit 0 blocks + (blocksFor size).toNat + 1 ≤ area.units
  · have unit : endUnit 0 blocks < area.units := by omega
    have blocksPositive := blocksFor_pos size
    have next : area.unitAddr (endUnit 0 blocks) + 8 =
        area.unitAddr (endUnit 0 blocks + 1) := by
      simp only [HeapArea.unitAddr, UInt32.ofNat_add, Nat.mul_add]
      rw [← UInt32.add_assoc]
      rfl
    simp only [if_pos room]
    rw [if_neg (HeapArea.unitAddr_ne_zero unit), next]
  · simp only [if_neg room, if_true]

/-- A fresh heap of at least one unit has the layout without blocks. -/
theorem initHeap_layout {reached : Mem} (nonempty : 0 < area.units)
    (run : initHeap area.heap area.size mem = .ok () reached) :
    Layout area reached [] := by
  unfold initHeap at run
  split at run
  · cases run
  · split at run
    · cases run
    · rename_i unset
      have small : area.size.toNat < 2147483648 :=
        Nat.lt_of_not_ge ((and_occupiedFlag_ne_zero area.size).not.mp unset)
      have bounded := units_lt small
      have units : (area.size >>> 3).toNat = area.units := toNat_shiftRight_three _
      have size : (area.size >>> 3) - 1 = UInt32.ofNat (area.units - 0 - 1) := by
        apply UInt32.toNat_inj.mp
        rw [UInt32.toNat_sub_of_le _ _ (by rw [UInt32.le_iff_toNat_le, units]; exact nonempty),
          units, UInt32.toNat_ofNat_of_lt' (by simp only [UInt32.size]; omega)]
        rfl
      cases run
      refine ⟨nonempty, small, Nat.zero_le _, ?_⟩
      intro _
      rw [endUnit, HeapArea.unitAddr_zero, MemNode.load_store, freeNode, size]

/-- Memory that differs only inside one block has the same layout. -/
theorem Layout.congr (layout : Layout area mem blocks) {other : Mem}
    {block : Allocation} (member : block ∈ blocks)
    (agree : ∀ a, a < block.ptr.toNat ∨ block.ptr.toNat + block.extent ≤ a →
      other a = mem a) :
    Layout area other blocks := by
  have bounds := layout.stored.mem_bounds member
  refine ⟨layout.nonempty, layout.small, ?_, ?_⟩
  · apply layout.stored.congr
    intro a _ _ outside
    exact agree a (outside block member)
  · intro left
    rw [← layout.free left]
    have address := HeapArea.toNat_unitAddr left
    apply MemNode.load_congr
    intro a lower upper
    exact agree a (by omega)

/-- A client that writes to its own block leaves the layout intact. -/
theorem Layout.clientWrite (layout : Layout area mem blocks) {block : Allocation}
    (member : block ∈ blocks) (offset : Nat) (bytes : List UInt8)
    (confined : offset + bytes.length ≤ block.size.toNat) :
    Layout area (write mem (block.ptr.toNat + offset) bytes) blocks := by
  have extent := block.size_lt_extent
  apply layout.congr member
  intro a outside
  exact write_outside mem (by omega)

end Steps

section Runs

variable (area : HeapArea)

/-- The memories that can arise, with the blocks handed out so far: the heap is
initialised and then `alloc` calls and client writes to the first `size` bytes
of handed out blocks follow in any order. -/
inductive HeapReach : Mem → List Allocation → Prop
  | init {mem reached : Mem}
      (run : initHeap area.heap area.size mem = .ok () reached) :
      HeapReach reached []
  | alloc {mem reached : Mem} {blocks : List Allocation} {size ptr : UInt32}
      (before : HeapReach mem blocks) (positive : 0 < size)
      (run : alloc area.heap size mem = .ok ptr reached) :
      HeapReach reached (if ptr = 0 then blocks else blocks ++ [⟨ptr, size⟩])
  | clientWrite {mem : Mem} {blocks : List Allocation} {block : Allocation}
      (before : HeapReach mem blocks) (member : block ∈ blocks) (offset : Nat)
      (bytes : List UInt8)
      (confined : offset + bytes.length ≤ block.size.toNat) :
      HeapReach (write mem (block.ptr.toNat + offset) bytes) blocks

/-- The nodes met from an address on by following the `next` pointers. -/
inductive NodeList (mem : Mem) : UInt32 → List (UInt32 × MemNode) → Prop
  | null : NodeList mem 0 []
  | node {addr : UInt32} {nodes : List (UInt32 × MemNode)} (nonNull : addr ≠ 0)
      (next : NodeList mem (MemNode.load mem addr).next nodes) :
      NodeList mem addr ((addr, MemNode.load mem addr) :: nodes)

/-- Every node starts where the one before it ends, and the last one ends with
the heap. -/
def Tiles (pos : Nat) : List (UInt32 × MemNode) → Prop
  | [] => pos = area.units
  | (addr, node) :: nodes =>
      addr.toNat = area.heap.toNat + 8 * pos ∧
        Tiles (pos + (node.units.toNat + 1)) nodes

variable {area} {mem : Mem} {pos : Nat} {blocks : List Allocation}

theorem HeapReach.layout (reach : HeapReach area mem blocks)
    (nonempty : 0 < area.units) : Layout area mem blocks := by
  induction reach with
  | init run => exact initHeap_layout nonempty run
  | @alloc mem reached blocks size ptr before positive run ih =>
      have positiveUnits := blocksFor_pos size
      rw [alloc_layout ih positive] at run
      split at run
      · rename_i room
        have inside : endUnit 0 blocks + 1 < area.units := by omega
        cases run
        rw [if_neg (HeapArea.unitAddr_ne_zero inside)]
        exact ih.occupy size room
      · cases run
        rw [if_pos rfl]
        exact ih
  | clientWrite before member offset bytes confined ih =>
      exact ih.clientWrite member offset bytes confined

theorem Tiles.le_addr {nodes : List (UInt32 × MemNode)}
    (tiles : Tiles area pos nodes) {addr : UInt32} {node : MemNode}
    (found : (addr, node) ∈ nodes) : area.heap.toNat + 8 * pos ≤ addr.toNat := by
  induction nodes generalizing pos with
  | nil => cases found
  | cons entry nodes ih =>
      rcases List.mem_cons.mp found with rfl | found
      · exact tiles.1.ge
      · have later := ih tiles.2 found
        omega

theorem Tiles.addr_mod {nodes : List (UInt32 × MemNode)}
    (tiles : Tiles area pos nodes) {addr : UInt32} {node : MemNode}
    (found : (addr, node) ∈ nodes) (aligned : area.heap.toNat % 8 = 0) :
    addr.toNat % 8 = 0 := by
  induction nodes generalizing pos with
  | nil => cases found
  | cons entry nodes ih =>
      rcases List.mem_cons.mp found with rfl | found
      · have start := tiles.1
        omega
      · exact ih tiles.2 found

theorem Tiles.sum_eq {nodes : List (UInt32 × MemNode)}
    (tiles : Tiles area pos nodes) :
    pos + (nodes.map fun entry => entry.2.units.toNat + 1).sum = area.units := by
  induction nodes generalizing pos with
  | nil => exact tiles
  | cons entry nodes ih =>
      have rest := ih tiles.2
      rw [List.map_cons, List.sum_cons]
      omega

/-- The nodes of a layout: the node list from `pos` on, its tiling, and the
place of the blocks in it. -/
theorem BlocksFrom.nodes (small : area.size.toNat < 2147483648)
    (stored : BlocksFrom area mem pos blocks)
    (free : endUnit pos blocks < area.units →
      MemNode.load mem (area.unitAddr (endUnit pos blocks)) =
        freeNode area (endUnit pos blocks)) :
    ∃ nodes, NodeList mem (area.link pos) nodes ∧ Tiles area pos nodes ∧
      (∀ block ∈ blocks, ∃ addr node, (addr, node) ∈ nodes ∧
        node.occupied = true ∧ block.ptr.toNat = addr.toNat + 8 ∧
        8 * node.units.toNat = block.extent) ∧
      ∀ addr node, (addr, node) ∈ nodes → ∀ block ∈ blocks,
        addr.toNat + 8 ≤ block.ptr.toNat ∨
          block.ptr.toNat + block.extent ≤ addr.toNat := by
  induction blocks generalizing pos with
  | nil =>
      by_cases inside : pos < area.units
      · have header := free inside
        have units : (freeNode area pos).units.toNat = area.units - pos - 1 :=
          toNat_units_freeNode small
        rw [endUnit] at header
        refine ⟨[(area.unitAddr pos, freeNode area pos)], ?_, ?_, by simp, by simp⟩
        · rw [HeapArea.link_of_lt inside, ← header]
          refine NodeList.node (HeapArea.unitAddr_ne_zero inside) ?_
          rw [header]
          exact NodeList.null
        · exact ⟨HeapArea.toNat_unitAddr inside, by simp only [Tiles, units]; omega⟩
      · refine ⟨[], ?_, ?_, by simp, by simp⟩
        · rw [HeapArea.link, if_neg inside]
          exact NodeList.null
        · exact Nat.le_antisymm stored (Nat.le_of_not_lt inside)
  | cons block blocks ih =>
      obtain ⟨start, stop⟩ := stored.head_bounds
      obtain ⟨-, inside, header, rest⟩ := stored
      obtain ⟨nodes, list, tiles, placed, apart⟩ := ih rest free
      have address := HeapArea.toNat_unitAddr inside
      have units := toNat_units_occupiedNode area pos block
      refine ⟨(area.unitAddr pos, occupiedNode area pos block) :: nodes,
        ?_, ⟨address, ?_⟩, ?_, ?_⟩
      · rw [HeapArea.link_of_lt inside, ← header]
        refine NodeList.node (HeapArea.unitAddr_ne_zero inside) ?_
        rw [header]
        exact list
      · rw [units, ← Nat.add_assoc]
        exact tiles
      · intro later member
        rcases List.mem_cons.mp member with rfl | member
        · exact ⟨_, _, List.mem_cons_self, occupied_occupiedNode area pos _,
            by omega, by rw [units, Allocation.extent]⟩
        · obtain ⟨addr, node, found, rest⟩ := placed later member
          exact ⟨addr, node, List.mem_cons_of_mem _ found, rest⟩
      · intro addr node found later member
        rcases List.mem_cons.mp found with eq | behind
        · cases eq
          rcases List.mem_cons.mp member with rfl | member
          · omega
          · have bounds := rest.mem_bounds member
            omega
        · rcases List.mem_cons.mp member with rfl | member
          · have lower := tiles.le_addr behind
            omega
          · exact apart addr node behind later member

/-- The heap keeps its shape in every run: the nodes reached from its start tile
it, and the blocks handed out are aligned, inside the heap, long enough, and
disjoint from each other and from all node headers. -/
theorem heap_integrity (reach : HeapReach area mem blocks)
    (aligned : area.heap.toNat % 8 = 0) (atLeast : 8 ≤ area.size.toNat) :
    (∃ nodes, NodeList mem area.heap nodes ∧ Tiles area 0 nodes ∧
      (nodes.map fun entry => entry.2.units.toNat + 1).sum =
        (area.size >>> 3).toNat ∧
      (∀ block ∈ blocks, ∃ addr node, (addr, node) ∈ nodes ∧
        node.occupied = true ∧ block.ptr.toNat = addr.toNat + 8 ∧
        8 * node.units.toNat = block.extent) ∧
      ∀ addr node, (addr, node) ∈ nodes → ∀ block ∈ blocks,
        addr.toNat + 8 ≤ block.ptr.toNat ∨
          block.ptr.toNat + block.extent ≤ addr.toNat) ∧
    (∀ block ∈ blocks, block.ptr.toNat % 8 = 0 ∧
      area.heap.toNat ≤ block.ptr.toNat ∧
      block.ptr.toNat + block.extent ≤ area.heap.toNat + area.size.toNat ∧
      block.size.toNat ≤ block.extent) ∧
    (blocks.Pairwise fun first second =>
      first.ptr.toNat + first.extent ≤ second.ptr.toNat ∨
        second.ptr.toNat + second.extent ≤ first.ptr.toNat) ∧
    ∀ request : UInt32, 0 < request → ∃ ptr reached,
      alloc area.heap request mem = .ok ptr reached := by
  have nonempty : 0 < area.units := by
    unfold HeapArea.units
    omega
  have layout := reach.layout nonempty
  obtain ⟨nodes, list, tiles, placed, apart⟩ :=
    layout.stored.nodes layout.small layout.free
  rw [HeapArea.link_of_lt nonempty, HeapArea.unitAddr_zero] at list
  refine ⟨⟨nodes, list, tiles, ?_, placed, apart⟩, ?_, ?_, ?_⟩
  · have total := tiles.sum_eq
    rw [toNat_shiftRight_three]
    unfold HeapArea.units at total
    omega
  · intro block member
    obtain ⟨addr, node, found, -, start, -⟩ := placed block member
    have bounds := layout.stored.mem_bounds member
    have inside := HeapArea.unitAddr_le layout.stored.endUnit_le
    have address := tiles.addr_mod found aligned
    have extent := block.size_lt_extent
    omega
  · exact layout.stored.pairwise.imp Or.inl
  · intro request positive
    rw [alloc_layout layout positive]
    split
    · exact ⟨_, _, rfl⟩
    · exact ⟨_, _, rfl⟩

/-- A heap of eight units with one block of five bytes, two of which its owner
has written. -/
theorem heap_integrity_eight_units :
    let area : HeapArea := ⟨4096, 64, by decide, by decide⟩
    ∃ mem, HeapReach area mem [⟨4104, 5⟩] ∧
      ∃ nodes, NodeList mem area.heap nodes ∧ Tiles area 0 nodes := by
  intro area
  have fresh : initHeap area.heap area.size (fun _ => 0) =
      .ok () (MemNode.store (fun _ => 0) area.heap ⟨(area.size >>> 3) - 1, 0⟩) := by
    rw [initHeap, if_neg (by decide), if_neg (by decide), Prog.modify_apply]
  have layout := initHeap_layout (by decide) fresh
  have run := alloc_layout layout (by decide : (0 : UInt32) < 5)
  rw [if_pos (by decide)] at run
  have reach := HeapReach.clientWrite
    (HeapReach.alloc (HeapReach.init fresh) (by decide) run)
    List.mem_cons_self 3 [1, 2] (by decide)
  obtain ⟨⟨nodes, list, tiles, -⟩, -⟩ :=
    heap_integrity reach (by decide) (by decide)
  exact ⟨_, reach, nodes, list, tiles⟩

end Runs

section Bump

variable (area : HeapArea)

/-- Call `alloc` for each of the sizes and collect the pointers. -/
def allocAll (heap : UInt32) : List UInt32 → Prog Halt Mem (List UInt32)
  | [] => pure []
  | size :: sizes => do
      let ptr ← alloc heap size
      let ptrs ← allocAll heap sizes
      pure (ptr :: ptrs)

/-- A bump allocator: a counter of used units, each request taking a header
unit and the units of its block. -/
def bumpAlloc (used : Nat) (size : UInt32) : UInt32 × Nat :=
  if used + 1 + (size.toNat / 8 + 1) ≤ area.units then
    (area.unitAddr (used + 1), used + 1 + (size.toNat / 8 + 1))
  else (0, used)

def bumpAll : Nat → List UInt32 → List UInt32
  | _, [] => []
  | used, size :: sizes =>
      (bumpAlloc area used size).1 :: bumpAll (bumpAlloc area used size).2 sizes

/-- The units taken by the calls that returned a block. -/
def unitsUsed : List UInt32 → List UInt32 → Nat
  | size :: sizes, ptr :: ptrs =>
      (if ptr ≠ 0 then 1 + (size.toNat / 8 + 1) else 0) + unitsUsed sizes ptrs
  | _, _ => 0

/-- The heap after some `alloc` calls.  A heap without a single unit has one
header all the same, which is marked occupied and ends the list. -/
def HeapUsed (mem : Mem) (used : Nat) : Prop :=
  (∃ blocks, Layout area mem blocks ∧ endUnit 0 blocks = used) ∨
    area.units = 0 ∧ used = 0 ∧
      MemNode.load mem area.heap = ⟨0xffffffff, 0⟩

variable {area} {mem : Mem} {used : Nat}

theorem initHeap_heapUsed {fresh : Mem}
    (run : initHeap area.heap area.size mem = .ok () fresh) :
    HeapUsed area fresh 0 := by
  by_cases nonempty : 0 < area.units
  · exact Or.inl ⟨[], initHeap_layout nonempty run, rfl⟩
  · have units : (area.size >>> 3).toNat = 0 := by
      rw [toNat_shiftRight_three]
      unfold HeapArea.units at nonempty
      omega
    have zero : area.size >>> 3 = 0 := UInt32.toNat_inj.mp units
    unfold initHeap at run
    split at run
    · cases run
    · split at run
      · cases run
      · cases run
        refine Or.inr ⟨by omega, rfl, ?_⟩
        rw [MemNode.load_store, zero]
        rfl

/-- One call of `alloc` is one step of the bump allocator. -/
theorem HeapUsed.alloc (state : HeapUsed area mem used) {size : UInt32}
    (positive : 0 < size) :
    (used + 1 + (size.toNat / 8 + 1) ≤ area.units →
      ∃ reached, alloc area.heap size mem = .ok (area.unitAddr (used + 1)) reached ∧
        HeapUsed area reached (used + 1 + (size.toNat / 8 + 1))) ∧
    (¬ used + 1 + (size.toNat / 8 + 1) ≤ area.units →
      alloc area.heap size mem = .ok 0 mem) := by
  have request := toNat_blocksFor size
  rcases state with ⟨blocks, layout, rfl⟩ | ⟨empty, rfl, header⟩
  · rw [alloc_layout layout positive]
    constructor
    · intro room
      have room : endUnit 0 blocks + (blocksFor size).toNat + 1 ≤ area.units := by
        omega
      rw [if_pos room]
      refine ⟨_, rfl, Or.inl ⟨_, layout.occupy size room, ?_⟩⟩
      rw [endUnit_append, endUnit, endUnit]
      dsimp only
      omega
    · intro full
      exact if_neg (by omega)
  · refine ⟨fun room => by omega, fun _ => ?_⟩
    have search : findNode mem (blocksFor size) (2 ^ 32) area.heap = some 0 := by
      rw [show 2 ^ 32 = (2 ^ 32 - 2) + 1 + 1 from rfl, findNode,
        if_neg area.nonNull, if_pos (Or.inr (by rw [header]; rfl)), header]
      rfl
    rw [alloc_of_findNode positive search, if_pos rfl]

theorem HeapUsed.allocAll (sizes : List UInt32) (state : HeapUsed area mem used)
    (positive : ∀ size ∈ sizes, 0 < size) :
    ∃ reached, allocAll area.heap sizes mem = .ok (bumpAll area used sizes) reached ∧
      HeapUsed area reached (used + unitsUsed sizes (bumpAll area used sizes)) := by
  induction sizes generalizing mem used with
  | nil => exact ⟨mem, rfl, state⟩
  | cons size sizes ih =>
      have later : ∀ size ∈ sizes, 0 < size := fun other member =>
        positive other (List.mem_cons_of_mem _ member)
      obtain ⟨succeeds, fails⟩ := state.alloc (positive size List.mem_cons_self)
      simp only [Sable.allocAll, bumpAll, bumpAlloc, unitsUsed]
      by_cases room : used + 1 + (size.toNat / 8 + 1) ≤ area.units
      · obtain ⟨between, run, stateNext⟩ := succeeds room
        obtain ⟨reached, runs, stateLast⟩ := ih stateNext later
        have nonNull : area.unitAddr (used + 1) ≠ 0 :=
          HeapArea.unitAddr_ne_zero (by omega)
        refine ⟨reached, ?_, ?_⟩
        · rw [Prog.bind_ok run, Prog.bind_ok runs, if_pos room]
          rfl
        · simp only [if_pos room]
          rw [if_pos nonNull, ← Nat.add_assoc, ← Nat.add_assoc]
          exact stateLast
      · obtain ⟨reached, runs, stateLast⟩ := ih state later
        refine ⟨reached, ?_, ?_⟩
        · rw [Prog.bind_ok (fails room), Prog.bind_ok runs, if_neg room]
          rfl
        · simp only [if_neg room]
          rw [if_neg (by simp), Nat.zero_add]
          exact stateLast

/-- The list allocator is a bump allocator.  Any sequence of calls on a fresh
heap returns what the counter returns; after it a further call succeeds exactly
if its units still fit behind the used ones, and a failing call changes
nothing. -/
theorem alloc_refines_bump {fresh : Mem} (sizes : List UInt32)
    (run : initHeap area.heap area.size mem = .ok () fresh)
    (positive : ∀ size ∈ sizes, 0 < size) :
    ∃ ptrs reached, Sable.allocAll area.heap sizes fresh = .ok ptrs reached ∧
      ptrs = bumpAll area 0 sizes ∧
      ∀ size : UInt32, 0 < size →
        (unitsUsed sizes ptrs + 1 + (size.toNat / 8 + 1) ≤ (area.size >>> 3).toNat →
          ∃ ptr after, alloc area.heap size reached = .ok ptr after ∧ ptr ≠ 0 ∧
            ptr.toNat = area.heap.toNat + 8 * (unitsUsed sizes ptrs + 1)) ∧
        (¬ unitsUsed sizes ptrs + 1 + (size.toNat / 8 + 1) ≤ (area.size >>> 3).toNat →
          alloc area.heap size reached = .ok 0 reached) := by
  have units : (area.size >>> 3).toNat = area.units := toNat_shiftRight_three _
  obtain ⟨reached, runs, state⟩ := (initHeap_heapUsed run).allocAll sizes positive
  rw [Nat.zero_add] at state
  refine ⟨_, reached, runs, rfl, fun size sizePositive => ?_⟩
  rw [units]
  obtain ⟨succeeds, fails⟩ := state.alloc sizePositive
  refine ⟨fun room => ?_, fails⟩
  obtain ⟨after, last, -⟩ := succeeds room
  exact ⟨_, after, last, HeapArea.unitAddr_ne_zero (by omega),
    HeapArea.toNat_unitAddr (by omega)⟩

/-- On a heap of eight units the second of these requests does not fit and the
third one still succeeds. -/
theorem alloc_refines_bump_eight_units :
    let area : HeapArea := ⟨4096, 64, by decide, by decide⟩
    ∃ fresh reached, initHeap area.heap area.size (fun _ => 0) = .ok () fresh ∧
      Sable.allocAll area.heap [20, 40, 10] fresh = .ok [4104, 0, 4136] reached := by
  intro area
  have fresh : initHeap area.heap area.size (fun _ => 0) =
      .ok () (MemNode.store (fun _ => 0) area.heap ⟨(area.size >>> 3) - 1, 0⟩) := by
    rw [initHeap, if_neg (by decide), if_neg (by decide), Prog.modify_apply]
  obtain ⟨ptrs, reached, runs, eq, -⟩ :=
    alloc_refines_bump [20, 40, 10] fresh (by simp)
  have value : bumpAll area 0 [20, 40, 10] = [4104, 0, 4136] := by decide
  rw [eq, value] at runs
  exact ⟨_, reached, fresh, runs⟩

end Bump

end Sable
