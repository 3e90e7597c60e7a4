import Sable.ByteMemory
import Sable.Exceptions
import Sable.HaltingPrograms

/-!
# The heap allocator of `alloc.c`

The heap is carved into nodes.  Each node has an eight-byte header, stored in
the heap memory itself, with the node's size in units of eight bytes and the
address of the next node.  The top bit of the size marks an occupied node.
-/

namespace Sable

open ByteMemory BigEndian HaltingProgram

/-- The header `struct mem_node` as it is stored in memory. -/
structure MemNode where
  size : UInt32
  next : UInt32
  deriving DecidableEq

/-- `MEM_NODE_OCCUPIED_FLAG`. -/
def occupiedFlag : UInt32 := 0x80000000

namespace MemNode

/-- The size without the flag. -/
def units (node : MemNode) : UInt32 :=
  node.size &&& ~~~occupiedFlag

def occupied (node : MemNode) : Bool :=
  node.size &&& occupiedFlag ≠ 0

def load (mem : Mem) (addr : UInt32) : MemNode :=
  ⟨load32 mem addr.toNat, load32 mem (addr.toNat + 4)⟩

def store (mem : Mem) (addr : UInt32) (node : MemNode) : Mem :=
  write mem addr.toNat (le32 node.size ++ le32 node.next)

end MemNode

/-- `init_heap` turns the whole heap into one free node. -/
def initHeap (heap heapSize : UInt32) : Prog Halt Mem Unit :=
  if heap &&& 7 ≠ 0 then Prog.halt .exit
  else if heapSize &&& occupiedFlag ≠ 0 then Prog.halt .exit
  else Prog.modify fun mem => MemNode.store mem heap ⟨(heapSize >>> 3) - 1, 0⟩

/-- The search of `alloc` for a node that is free and large enough; `0` is the
null pointer.  More than `2 ^ 32` steps revisit an address, so that running out
of fuel stands for a search that never ends. -/
def findNode (mem : Mem) (blocks : UInt32) : Nat → UInt32 → Option UInt32
  | 0, _ => none
  | fuel + 1, n =>
      if n = 0 then some 0
      else if blocks > (MemNode.load mem n).units ∨ (MemNode.load mem n).occupied then
        findNode mem blocks fuel (MemNode.load mem n).next
      else some n

/-- Occupy the first `blocks` units behind the header at `n`, splitting the
node if it is larger. -/
def occupyNode (mem : Mem) (n blocks : UInt32) : Mem :=
  let node := MemNode.load mem n
  if blocks < node.units then
    let nextNode := n + 8 * (blocks + 1)
    let mem := MemNode.store mem nextNode
      ⟨(node.units - (blocks + 1)) &&& ~~~occupiedFlag, node.next⟩
    MemNode.store mem n ⟨blocks ||| occupiedFlag, nextNode⟩
  else MemNode.store mem n ⟨blocks ||| occupiedFlag, node.next⟩

/-- Allocate `size` bytes; the result is the address of the block, or null. -/
def alloc (heap size : UInt32) : Prog Halt Mem UInt32 :=
  if size > 0 then do
    let mem ← Prog.get
    let blocks := (size >>> 3) + 1
    match findNode mem blocks (2 ^ 32) heap with
    | none => Prog.halt .spin
    | some n =>
        if n = 0 then pure 0
        else do
          Prog.modify fun mem => occupyNode mem n blocks
          pure (n + 8)
  else Prog.halt .exit

end Sable
