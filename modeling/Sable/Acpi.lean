import Sable.Heap

/-!
# The ACPI tables of `acpi.c`

The root pointer is looked for in low memory and kept.  It leads to the table of tables, in
which a table is found by its signature.  The machine keeps the ranges of the entries that
are read from the table of the interrupt controllers.
-/

namespace Sable

open ByteMemory HaltingProgram

/-- Memory, the pointer `rsdp`, and the ranges of the entries that were read. -/
structure AcpiMachine where
  mem : Mem
  rsdp : UInt32
  entries : List Access

section Comparisons

variable (mem : Mem)

/-- `memcmp` with a constant; the result is whether the bytes differ. -/
def memcmp (buf1 : UInt32) : List UInt8 → Bool
  | [] => false
  | byte :: bytes => if word8 mem buf1 0 ≠ byte then true else memcmp (buf1 + 1) bytes

/-- The loop of `verify_acpi_checksum`. -/
def acpiSum : Nat → UInt32 → UInt8 → UInt8
  | 0, _, sum => sum
  | len + 1, start, sum => acpiSum len (start + 1) (sum + word8 mem start 0)

def verifyAcpiChecksum (start : UInt32) (len : UInt8) : Bool :=
  acpiSum mem len.toNat start 0 = 0

end Comparisons

section RootPointer

/-- `RSDP_BOUNDARY` -/
def rsdpBoundary : UInt32 := 16

/-- `RSDP_CHKSUM_LEN` -/
def rsdpChksumLen : UInt8 := 20

/-- `RSDP_SIG`: "RSD PTR " -/
def rsdpSig : List UInt8 := [0x52, 0x53, 0x44, 0x20, 0x50, 0x54, 0x52, 0x20]

def rsdpScope1Low : UInt32 := 0
def rsdpScope1High : UInt32 := 0x400
def rsdpScope2Low : UInt32 := 0xe0000
def rsdpScope2High : UInt32 := 0x100000

/-- The loop of `find_rsdp_in_range` with some boundaries left. -/
def rsdpLoop : Nat → UInt32 → Prog Halt AcpiMachine Bool
  | 0, _ => return false
  | boundaries + 1, start => do
      Prog.modify fun m => { m with rsdp := start }
      let m ← Prog.get
      if memcmp m.mem m.rsdp rsdpSig then rsdpLoop boundaries (start + rsdpBoundary)
      else if verifyAcpiChecksum m.mem m.rsdp rsdpChksumLen then return true
      else return false

/-- `find_rsdp_in_range`; as many boundaries lie between `start` and `last`. -/
def findRsdpInRange (start last : UInt32) : Prog Halt AcpiMachine Bool :=
  rsdpLoop ((last.toNat - start.toNat + 15) / 16) start

/-- `find_rsdp`: the loader context has no copy. -/
def findRsdp : Prog Halt AcpiMachine Bool := do
  let m ← Prog.get
  if m.rsdp ≠ 0 then return true
  else
    let first ← findRsdpInRange rsdpScope1Low rsdpScope1High
    if first then return true
    else
      let second ← findRsdpInRange rsdpScope2Low rsdpScope2High
      if second then return true
      else
        Prog.modify fun m => { m with rsdp := 0 }
        return false

end RootPointer

section Tables

/-- `get_rsdt` -/
def getRsdt (m : AcpiMachine) : UInt32 :=
  word32 m.mem m.rsdp 16

/-- `get_xsdt`; a table behind the first four gigabytes is none. -/
def getXsdt (m : AcpiMachine) : UInt32 :=
  if word64 m.mem m.rsdp 24 ≥ 0x100000000 then 0 else (word64 m.mem m.rsdp 24).toUInt32

/-- The loops of `find_table` over the pointers of a table of tables, which take `size` bytes;
of a long pointer the low half counts. -/
def tableLoop (tableName : List UInt8) (tables size : UInt32) :
    Nat → UInt32 → Prog Halt AcpiMachine UInt32
  | 0, _ => Prog.halt .spin
  | fuel + 1, currTable => do
      let m ← Prog.get
      if currTable < tables + word32 m.mem tables 4 then
        let table := word32 m.mem currTable 0
        if memcmp m.mem table tableName then
          tableLoop tableName tables size fuel (currTable + size)
        else return table
      else return 0

def findTable (fuel : Nat) (tableName : List UInt8) : Prog Halt AcpiMachine UInt32 := do
  let found ← findRsdp
  if found then
    let m ← Prog.get
    let xsdt := getXsdt m
    if word8 m.mem m.rsdp 15 ≥ 2 ∧ xsdt ≠ 0 then tableLoop tableName xsdt 8 fuel (xsdt + 36)
    else
      let rsdt := getRsdt m
      if rsdt = 0 then return 0 else tableLoop tableName rsdt 4 fuel (rsdt + 36)
  else return 0

/-- `MADT_SIG`: "APIC" -/
def madtSig : List UInt8 := [0x41, 0x50, 0x49, 0x43]

def getApicTable (fuel : Nat) : Prog Halt AcpiMachine UInt32 :=
  findTable fuel madtSig

end Tables

section InterruptControllers

/-- `ACPI_MADT_IOAPIC` -/
def acpiMadtIoapic : UInt8 := 1

/-- `sizeof(entry->madt_ioapic)` -/
def madtIoapicSize : UInt8 := 12

def entryRead (addr : UInt32) (len : Nat) : Prog Halt AcpiMachine Unit :=
  Prog.modify fun m => { m with entries := ⟨addr, len⟩ :: m.entries }

/-- The loop of `get_acpi_ioapic_table`.  The head of an entry is read and then the entry
itself counts, which is as long as its head says. -/
def ioapicLoop (madt : UInt32) : Nat → UInt32 → Prog Halt AcpiMachine UInt32
  | 0, _ => Prog.halt .spin
  | fuel + 1, entry => do
      let m ← Prog.get
      if entry < madt + word32 m.mem madt 4 then
        let length := word8 m.mem entry 1
        entryRead entry 2
        entryRead entry length.toNat
        if word8 m.mem entry 0 = acpiMadtIoapic then
          if length ≠ madtIoapicSize then return 0 else return entry
        else ioapicLoop madt fuel (entry + length.toUInt32)
      else return 0

/-- `get_acpi_ioapic_table`; the entries begin behind the head of the table. -/
def getAcpiIoapicTable (bound fuel : Nat) : Prog Halt AcpiMachine UInt32 := do
  let madt ← getApicTable bound
  if madt = 0 then return 0 else ioapicLoop madt fuel (madt + 44)

end InterruptControllers

section Frames

/-- The search for a table changes nothing but the root pointer. -/
abbrev KeepsTables {α : Type} (program : Prog Halt AcpiMachine α) : Prop :=
  Prog.Preserves (fun m => (m.mem, m.entries)) program

theorem rsdpLoop_keeps (boundaries : Nat) (start : UInt32) :
    KeepsTables (rsdpLoop boundaries start) := by
  induction boundaries generalizing start with
  | zero => exact fun _ => rfl
  | succ boundaries ih =>
      refine Prog.Preserves.bind (fun _ => rfl) fun _ =>
        Prog.Preserves.bind (fun _ => rfl) fun _ => ?_
      exact Prog.Preserves.ite (ih _) (Prog.Preserves.ite (fun _ => rfl) fun _ => rfl)

theorem findRsdp_keeps : KeepsTables findRsdp := by
  refine Prog.Preserves.bind (fun _ => rfl) fun _ => Prog.Preserves.ite (fun _ => rfl) ?_
  refine Prog.Preserves.bind (rsdpLoop_keeps _ _) fun _ => Prog.Preserves.ite (fun _ => rfl) ?_
  refine Prog.Preserves.bind (rsdpLoop_keeps _ _) fun _ => Prog.Preserves.ite (fun _ => rfl) ?_
  exact Prog.Preserves.bind (fun _ => rfl) fun _ => fun _ => rfl

theorem tableLoop_keeps (tableName : List UInt8) (tables size : UInt32) (fuel : Nat)
    (currTable : UInt32) : KeepsTables (tableLoop tableName tables size fuel currTable) := by
  induction fuel generalizing currTable with
  | zero => exact fun _ => rfl
  | succ fuel ih =>
      refine Prog.Preserves.bind (fun _ => rfl) fun _ => Prog.Preserves.ite ?_ fun _ => rfl
      exact Prog.Preserves.ite (ih _) fun _ => rfl

theorem findTable_keeps (fuel : Nat) (tableName : List UInt8) :
    KeepsTables (findTable fuel tableName) := by
  refine Prog.Preserves.bind findRsdp_keeps fun _ => Prog.Preserves.ite ?_ fun _ => rfl
  refine Prog.Preserves.bind (fun _ => rfl) fun _ =>
    Prog.Preserves.ite (tableLoop_keeps _ _ _ _ _) ?_
  exact Prog.Preserves.ite (fun _ => rfl) (tableLoop_keeps _ _ _ _ _)

end Frames

end Sable
