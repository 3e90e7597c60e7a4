import Mathlib.Data.List.Pairwise
import Sable.AllocTiling

/-!
# Objects on the heap

A view of the heap for programs that allocate blocks and fill them: the number
of units used and the bytes in the blocks the program keeps track of.  Blocks
are never moved or freed, so that an allocation or a change to one block leaves
the bytes of all others alone.
-/

namespace Sable

open ByteMemory BigEndian HaltingProgram

variable {area : HeapArea} {used : Nat} {contents : UInt32 → Option (List UInt8)}
  {mem : Mem}

/-- The heap has `used` units in use and the blocks in `contents` hold the given
bytes. -/
def Tracks (area : HeapArea) (used : Nat) (contents : UInt32 → Option (List UInt8))
    (mem : Mem) : Prop :=
  ∃ blocks, Layout area mem blocks ∧ endUnit 0 blocks = used ∧
    ∀ ptr bytes, contents ptr = some bytes →
      (∃ block ∈ blocks, block.ptr = ptr ∧ block.size.toNat = bytes.length) ∧
        read mem ptr.toNat bytes.length = bytes

theorem Tracks.init (nonempty : 0 < area.units) {before : Mem}
    (run : initHeap area.heap area.size before = .ok () mem) :
    Tracks area 0 (fun _ => none) mem :=
  ⟨[], initHeap_layout nonempty run, rfl, by simp⟩

theorem Tracks.read_eq (tracks : Tracks area used contents mem) {ptr : UInt32}
    {bytes : List UInt8} (tracked : contents ptr = some bytes) :
    read mem ptr.toNat bytes.length = bytes := by
  obtain ⟨blocks, -, -, known⟩ := tracks
  exact (known ptr bytes tracked).2

theorem Tracks.nonNull (tracks : Tracks area used contents mem) {ptr : UInt32}
    {bytes : List UInt8} (tracked : contents ptr = some bytes) : ptr ≠ 0 := by
  obtain ⟨blocks, layout, -, known⟩ := tracks
  obtain ⟨⟨block, member, rfl, -⟩, -⟩ := known ptr bytes tracked
  have bounds := layout.stored.mem_bounds member
  intro null
  rw [null] at bounds
  simp at bounds

/-- A tracked block lies in the part of the heap that is in use. -/
theorem Tracks.bounds (tracks : Tracks area used contents mem) {ptr : UInt32}
    {bytes : List UInt8} (tracked : contents ptr = some bytes) :
    area.heap.toNat + 8 ≤ ptr.toNat ∧
      ptr.toNat + bytes.length ≤ area.heap.toNat + 8 * used := by
  obtain ⟨blocks, layout, rfl, known⟩ := tracks
  obtain ⟨⟨block, member, rfl, size⟩, -⟩ := known ptr bytes tracked
  have bounds := layout.stored.mem_bounds member
  have extent := block.size_lt_extent
  omega

/-- Allocating changes the free part of the heap only. -/
theorem occupyNode_outside {blocks : List Allocation} {size : UInt32}
    (layout : Layout area mem blocks)
    (room : endUnit 0 blocks + (blocksFor size).toNat + 1 ≤ area.units) {a : Nat}
    (outside : a < area.heap.toNat + 8 * endUnit 0 blocks ∨
      area.heap.toNat + 8 * area.units ≤ a) :
    occupyNode mem (area.unitAddr (endUnit 0 blocks)) (blocksFor size) a = mem a := by
  have positive := blocksFor_pos size
  have inside : endUnit 0 blocks < area.units := by omega
  have address := HeapArea.toNat_unitAddr inside
  have stored := occupyNode_freeNode layout.small inside (layout.free inside) ⟨0, size⟩ room
  rw [stored, MemNode.store_outside _ _ _ (by omega)]
  split
  · rename_i left
    have next := HeapArea.toNat_unitAddr left
    exact MemNode.store_outside _ _ _ (by omega)
  · rfl

/-- An allocation that fits returns a new block with whatever bytes lie there, in the free
part of the heap. -/
theorem Tracks.alloc_fresh (tracks : Tracks area used contents mem) {size : UInt32}
    (positive : 0 < size) (room : used + size.toNat / 8 + 2 ≤ area.units) :
    ∃ ptr reached, alloc area.heap size mem = .ok ptr reached ∧ contents ptr = none ∧
      area.heap.toNat + 8 * used < ptr.toNat ∧
      (∀ a, a < area.heap.toNat + 8 * used ∨ area.heap.toNat + 8 * area.units ≤ a →
        reached a = mem a) ∧
      Tracks area (used + size.toNat / 8 + 2)
        (Function.update contents ptr (some (read reached ptr.toNat size.toNat)))
        reached := by
  obtain ⟨blocks, layout, rfl, known⟩ := tracks
  have request := toNat_blocksFor size
  have room : endUnit 0 blocks + (blocksFor size).toNat + 1 ≤ area.units := by omega
  have address := HeapArea.toNat_unitAddr
    (by omega : endUnit 0 blocks + 1 < area.units)
  have run := alloc_layout layout positive
  rw [if_pos room] at run
  have fresh : contents (area.unitAddr (endUnit 0 blocks + 1)) = none := by
    by_contra tracked
    obtain ⟨bytes, tracked⟩ := Option.ne_none_iff_exists'.mp tracked
    obtain ⟨⟨block, member, same, -⟩, -⟩ := known _ bytes tracked
    have bounds := layout.stored.mem_bounds member
    rw [same] at bounds
    omega
  refine ⟨_, _, run, fresh, by omega, fun a outside => occupyNode_outside layout room outside,
    _, layout.occupy size room, ?_, ?_⟩
  · rw [endUnit_append, endUnit, endUnit]
    dsimp only
    omega
  intro ptr bytes tracked
  by_cases new : ptr = area.unitAddr (endUnit 0 blocks + 1)
  · subst new
    rw [Function.update_self] at tracked
    cases tracked
    rw [length_read]
    exact ⟨⟨⟨_, size⟩, List.mem_append_right _ List.mem_cons_self, rfl, rfl⟩, rfl⟩
  · rw [Function.update_of_ne new] at tracked
    obtain ⟨⟨block, member, same, length⟩, bytesEq⟩ := known ptr bytes tracked
    have bounds := layout.stored.mem_bounds member
    have extent := block.size_lt_extent
    refine ⟨⟨block, by simp [member], same, length⟩, ?_⟩
    rw [← bytesEq, length_read]
    apply read_congr
    intro a lower upper
    rw [bytesEq] at *
    exact occupyNode_outside layout room (by rw [same] at bounds; omega)

theorem Tracks.alloc (tracks : Tracks area used contents mem) {size : UInt32}
    (positive : 0 < size) (room : used + size.toNat / 8 + 2 ≤ area.units) :
    ∃ ptr reached, alloc area.heap size mem = .ok ptr reached ∧ contents ptr = none ∧
      Tracks area (used + size.toNat / 8 + 2)
        (Function.update contents ptr (some (read reached ptr.toNat size.toNat)))
        reached := by
  obtain ⟨ptr, reached, run, fresh, -, -, now⟩ := tracks.alloc_fresh positive room
  exact ⟨ptr, reached, run, fresh, now⟩

/-- An allocation that does not fit returns null. -/
theorem Tracks.alloc_full (tracks : Tracks area used contents mem) {size : UInt32}
    (positive : 0 < size) (full : ¬ used + size.toNat / 8 + 2 ≤ area.units) :
    Sable.alloc area.heap size mem = .ok 0 mem := by
  obtain ⟨blocks, layout, rfl, -⟩ := tracks
  have request := toNat_blocksFor size
  rw [alloc_layout layout positive, if_neg (by omega)]

theorem BlocksFrom.apart {blocks : List Allocation} {pos : Nat}
    (stored : BlocksFrom area mem pos blocks) {first second : Allocation}
    (firstMember : first ∈ blocks) (secondMember : second ∈ blocks)
    (different : first ≠ second) :
    first.ptr.toNat + first.extent ≤ second.ptr.toNat ∨
      second.ptr.toNat + second.extent ≤ first.ptr.toNat := by
  let Apart (first second : Allocation) : Prop :=
    first.ptr.toNat + first.extent ≤ second.ptr.toNat ∨
      second.ptr.toNat + second.extent ≤ first.ptr.toNat
  have symm : Std.Symm Apart := ⟨fun _ _ => Or.symm⟩
  have pairwise : blocks.Pairwise Apart := stored.pairwise.imp Or.inl
  exact pairwise.forall firstMember secondMember different

/-- A change inside a tracked block. -/
theorem Tracks.change (tracks : Tracks area used contents mem) {ptr : UInt32}
    {bytes : List UInt8} (tracked : contents ptr = some bytes) {reached : Mem}
    (agree : ∀ a, a < ptr.toNat ∨ ptr.toNat + bytes.length ≤ a → reached a = mem a) :
    Tracks area used
      (Function.update contents ptr (some (read reached ptr.toNat bytes.length)))
      reached := by
  obtain ⟨blocks, layout, rfl, known⟩ := tracks
  obtain ⟨⟨block, member, same, length⟩, -⟩ := known ptr bytes tracked
  have extent := block.size_lt_extent
  refine ⟨blocks, layout.congr member ?_, rfl, ?_⟩
  · intro a outside
    rw [same] at outside
    exact agree a (by omega)
  intro other content held
  by_cases changed : other = ptr
  · subst changed
    rw [Function.update_self] at held
    cases held
    rw [length_read]
    exact ⟨⟨block, member, same, length⟩, rfl⟩
  · rw [Function.update_of_ne changed] at held
    obtain ⟨⟨second, secondMember, secondSame, secondLength⟩, contentEq⟩ :=
      known other content held
    refine ⟨⟨second, secondMember, secondSame, secondLength⟩, ?_⟩
    have apart := layout.stored.apart member secondMember (by
      rintro rfl
      exact changed (secondSame.symm.trans same))
    have secondExtent := second.size_lt_extent
    rw [same, secondSame] at apart
    rw [← contentEq, length_read]
    apply read_congr
    intro a lower upper
    rw [contentEq] at *
    exact agree a (by omega)

/-- Different tracked blocks do not overlap. -/
theorem Tracks.apart (tracks : Tracks area used contents mem) {first second : UInt32}
    {bytes others : List UInt8} (tracked : contents first = some bytes)
    (trackedNext : contents second = some others) (different : first ≠ second) :
    first.toNat + bytes.length ≤ second.toNat ∨ second.toNat + others.length ≤ first.toNat := by
  obtain ⟨blocks, layout, -, known⟩ := tracks
  obtain ⟨⟨block, member, rfl, length⟩, -⟩ := known first bytes tracked
  obtain ⟨⟨next, nextMember, rfl, nextLength⟩, -⟩ := known second others trackedNext
  have apart := layout.stored.apart member nextMember (by
    rintro rfl
    exact different rfl)
  have extent := block.size_lt_extent
  have nextExtent := next.size_lt_extent
  omega

end Sable
