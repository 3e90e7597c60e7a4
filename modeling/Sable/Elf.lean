import Sable.Exceptions
import Sable.HaltingPrograms
import Sable.StringInstructions

/-!
# The module starter of `elf.c`

The next module is a kernel with addresses in its multiboot header or an ELF
image.  Its segments cannot be copied by the boot loader itself, which they may
overwrite: the copying is compiled to a small program, the trampoline, that is
stored at a fixed address and ends with a jump to the kernel.
-/

namespace Sable

open ByteMemory HaltingProgram

def mbiMagic1 : UInt32 := 0x1badb002
def mbiMagic2 : UInt32 := 0x2badb002
def trampolineAddress : UInt32 := 0x7c00

/-- The memory and the static pointer `code`. -/
structure Loader where
  mem : Mem
  code : UInt32

/-- The registers that `start_module` sets when it jumps to the address in `edx`. -/
structure Jump where
  eax : UInt32
  edx : UInt32
  ebx : UInt32

section Emitters

def byteOut (byte : UInt8) : Prog Halt Loader Unit :=
  Prog.modify fun s => ⟨write s.mem s.code.toNat [byte], s.code + 1⟩

def genMov (reg : X86.Reg) (constant : UInt32) : Prog Halt Loader Unit := do
  byteOut (0xB8 ||| reg.code)
  byteOut constant.toUInt8
  byteOut (constant >>> 8).toUInt8
  byteOut (constant >>> 16).toUInt8
  byteOut (constant >>> 24).toUInt8

def genJmpEdx : Prog Halt Loader Unit := do
  byteOut 0xFF
  byteOut 0xE2

def genElfSegment (target src len fill : UInt32) : Prog Halt Loader Unit := do
  genMov .edi target
  genMov .esi src
  genMov .ecx len
  byteOut 0xF3
  byteOut 0xA4
  genMov .ecx fill
  byteOut 0xF3
  byteOut 0xAA

end Emitters

section Headers

/-- The fields of `struct ph` that are used. -/
structure Ph where
  pType : UInt32
  pOffset : UInt32
  pPaddr : UInt32
  pFilesz : UInt32
  pMemsz : UInt32
  deriving DecidableEq

def Ph.load (mem : Mem) (addr : UInt32) : Ph where
  pType := load32 mem addr.toNat
  pOffset := load32 mem (addr.toNat + 4)
  pPaddr := load32 mem (addr.toNat + 12)
  pFilesz := load32 mem (addr.toNat + 16)
  pMemsz := load32 mem (addr.toNat + 20)

/-- The fields of `struct eh` that are used; the identification is its magic number and
the two bytes behind it. -/
structure Eh where
  eMagic : UInt32
  eClassData : UInt16
  eType : UInt16
  eMachine : UInt16
  eVersion : UInt32
  eEntry : UInt32
  ePhoff : UInt32
  ePhentsize : UInt16
  ePhnum : UInt16
  deriving DecidableEq

def Eh.load (mem : Mem) (addr : UInt32) : Eh where
  eMagic := load32 mem addr.toNat
  eClassData := load16 mem (addr.toNat + 4)
  eType := load16 mem (addr.toNat + 16)
  eMachine := load16 mem (addr.toNat + 18)
  eVersion := load32 mem (addr.toNat + 20)
  eEntry := load32 mem (addr.toNat + 24)
  ePhoff := load32 mem (addr.toNat + 28)
  ePhentsize := load16 mem (addr.toNat + 42)
  ePhnum := load16 mem (addr.toNat + 44)

/-- The fields of `struct mbh` that are used. -/
structure Mbh where
  magic : UInt32
  flags : UInt32
  headerAddr : UInt32
  loadAddr : UInt32
  loadEndAddr : UInt32
  bssEndAddr : UInt32
  entryAddr : UInt32
  deriving DecidableEq

def Mbh.load (mem : Mem) (addr : UInt32) : Mbh where
  magic := load32 mem addr.toNat
  flags := load32 mem (addr.toNat + 4)
  headerAddr := load32 mem (addr.toNat + 12)
  loadAddr := load32 mem (addr.toNat + 16)
  loadEndAddr := load32 mem (addr.toNat + 20)
  bssEndAddr := load32 mem (addr.toNat + 24)
  entryAddr := load32 mem (addr.toNat + 28)

end Headers

section Starter

def getMem : Prog Halt Loader Mem := do
  let s ← Prog.get
  return s.mem

def storeWord (addr : UInt32) (offset : Nat) (word : UInt32) : Prog Halt Loader Unit :=
  Prog.modify fun s => { s with mem := write s.mem (addr.toNat + offset) (le32 word) }

/-- An access through a null pointer. -/
def nonNull (ptr : UInt32) : Prog Halt Loader Unit :=
  if ptr = 0 then Prog.halt .fault else pure ()

/-- The loop that looks for the magic number of a multiboot header in the first 8192
words; the result is where it ends. -/
def searchMbh (mem : Mem) (stop : UInt32) : Nat → UInt32 → UInt32
  | 0, ptr => ptr
  | fuel + 1, ptr =>
      if ptr < stop then
        if load32 mem ptr.toNat = mbiMagic1 then ptr
        else searchMbh mem stop fuel (ptr + 4)
      else ptr

/-- The segment of a kernel with addresses in its multiboot header.  The difference of two
word pointers drops the lowest two bits of the addresses. -/
def multibootSegment (m mb : UInt32) : Prog Halt Loader Unit := do
  let mem ← getMem
  let mbh := Mbh.load mem mb
  let loadEnd := if mbh.loadEndAddr = 0 then load32 mem (m.toNat + 4) else mbh.loadEndAddr
  let bssOffset := if mbh.bssEndAddr = 0 then 0 else mbh.bssEndAddr - loadEnd
  genElfSegment mbh.loadAddr (mb - ((mbh.headerAddr - mbh.loadAddr) &&& 0xFFFFFFFC))
    (loadEnd - mbh.loadAddr) bssOffset

/-- The loop over the program headers.  Its bound is a 16-bit word, which is read again in
every iteration. -/
def segmentLoop (m elf : UInt32) : Nat → UInt32 → Prog Halt Loader Unit
  | 0, _ => pure ()
  | fuel + 1, i => do
      let mem ← getMem
      let eh := Eh.load mem elf
      if i < eh.ePhnum.toUInt32 then
        let modStart := load32 mem m.toNat
        let ph := Ph.load mem (modStart + eh.ePhoff + i * eh.ePhentsize.toUInt32)
        if ph.pType = 1 then
          genElfSegment ph.pPaddr (modStart + ph.pOffset) ph.pFilesz (ph.pMemsz - ph.pFilesz)
        segmentLoop m elf fuel (i + 1)
      else pure ()

/-- The checks of the ELF header, in their order. -/
def elfHeaderGood (eh : Eh) : Prop :=
  (eh.eMagic = 0x464c457f ∧ eh.eClassData = 0x0101) ∧
    (eh.eType = 2 ∧ eh.eMachine = 3 ∧ eh.eVersion = 1) ∧ 32 ≤ eh.ePhentsize

instance (eh : Eh) : Decidable (elfHeaderGood eh) :=
  inferInstanceAs (Decidable (_ ∧ _))

/-- The module is loaded by the addresses in its multiboot header. -/
def isMultiboot (mem : Mem) (mb : UInt32) : Prop :=
  (Mbh.load mem mb).flags &&& 0x10000 ≠ 0 ∧ (Mbh.load mem mb).magic = mbiMagic1

instance (mem : Mem) (mb : UInt32) : Decidable (isMultiboot mem mb) :=
  inferInstanceAs (Decidable (_ ∧ _))

/-- Take the first module off the list of the multiboot information; the result is the
address of its descriptor. -/
def takeModule (mbi : UInt32) : Prog Halt Loader UInt32 := do
  let mem ← getMem
  let m := load32 mem (mbi.toNat + 24)
  storeWord mbi 24 (m + 16)
  let mem ← getMem
  storeWord mbi 20 (load32 mem (mbi.toNat + 20) - 1)
  nonNull m
  let mem ← getMem
  storeWord mbi 16 (load32 mem (m.toNat + 8))
  let mem ← getMem
  storeWord mbi 0 (load32 mem mbi.toNat ||| 4)
  return m

/-- The end of the trampoline and the jump to it. -/
def finishModule (mbi entry : UInt32) : Prog Halt Loader (Except Error Jump) := do
  genMov .edx entry
  genJmpEdx
  return .ok ⟨0, trampolineAddress, mbi⟩

def startModule (mbi : UInt32) : Prog Halt Loader (Except Error Jump) := do
  let mem ← getMem
  if load32 mem (mbi.toNat + 20) = 0 then return .error .noModule
  let m ← takeModule mbi
  let mem ← getMem
  let modStart := load32 mem m.toNat
  nonNull modStart
  let mb := searchMbh mem (modStart + 32768) 8193 modStart
  if isMultiboot mem mb then
    multibootSegment m mb
    genMov .eax mbiMagic2
    let mem ← getMem
    finishModule mbi (Mbh.load mem mb).entryAddr
  else
    if ¬ elfHeaderGood (Eh.load mem modStart) then return .error .badElfHeader
    segmentLoop m modStart 65536 0
    genMov .eax mbiMagic2
    let mem ← getMem
    finishModule mbi (Eh.load mem modStart).eEntry

end Starter

end Sable
