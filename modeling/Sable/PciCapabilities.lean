import Sable.Exceptions
import Sable.HaltingPrograms
import Sable.PointerWalks

/-!
# The capabilities of a PCI device

`pci_dev_find_cap` of `dev.c` follows the capability list of a device, whose pointers are read
from the device.  It finds the first capability with the given identifier if it ends, and it
ends exactly if the list does not return to a capability that has been left behind.
-/

namespace Sable

open HaltingProgram PointerWalk

section Model

/-- The long that the data port shows for an address, and the address register. -/
structure PciMachine where
  config : UInt32 → UInt32
  address : UInt32

def pciAddrPort : UInt32 := 0xcf8
def pciDataPort : UInt32 := 0xcfc
def pciConfHdrCmd : UInt32 := 4
def pciConfHdrCap : UInt32 := 52
def pciCapOffset : UInt32 := 1

/-- A long at an address, whose last two bits do not count. -/
def pciLong (config : UInt32 → UInt32) (addr : UInt32) : UInt32 :=
  config (addr &&& 0xfffffffc)

/-- A byte of a long. -/
def pciByte (config : UInt32 → UInt32) (addr : UInt32) : UInt8 :=
  (pciLong config addr >>> (8 * (addr &&& 3))).toUInt8

def outl (port value : UInt32) : Prog Halt PciMachine Unit :=
  Prog.modify fun m => if port = pciAddrPort then { m with address := value } else m

/-- The data port. -/
def inl : Prog Halt PciMachine UInt32 := do
  let m ← Prog.get
  return pciLong m.config m.address

/-- The byte of the long that belongs to the port. -/
def inb (port : UInt32) : Prog Halt PciMachine UInt8 := do
  let m ← Prog.get
  return (pciLong m.config m.address >>> (8 * (port - pciDataPort))).toUInt8

def pciReadByte (addr : UInt32) : Prog Halt PciMachine UInt8 := do
  outl pciAddrPort addr
  inb (pciDataPort + (addr &&& 3))

def pciReadLong (addr : UInt32) : Prog Halt PciMachine UInt32 := do
  outl pciAddrPort addr
  inl

variable (addr : UInt32) (id : UInt8)

/-- The loop of `pci_dev_find_cap`. -/
def capLoop : Nat → UInt8 → Prog Halt PciMachine (Result UInt8)
  | 0, _ => Prog.halt .spin
  | fuel + 1, value =>
      if value ≠ 0 then do
        let found ← pciReadByte (addr + value.toUInt32)
        if id = found then return .ok value
        else
          let next ← pciReadByte (addr + value.toUInt32 + pciCapOffset)
          capLoop fuel next
      else return .ok value

def pciDevFindCap (fuel : Nat) : Prog Halt PciMachine (Result UInt8) := do
  let command ← pciReadLong (addr + pciConfHdrCmd)
  if command &&& 0x100000 = 0 then return .error .pci 0
  else
    let head ← pciReadByte (addr + pciConfHdrCap)
    capLoop addr id fuel head

end Model

section List

variable (config : UInt32 → UInt32) (addr : UInt32) (id : UInt8)

/-- The pointer in a capability to the one behind it. -/
def nextCap (offset : UInt8) : UInt8 :=
  pciByte config (addr + offset.toUInt32 + pciCapOffset)

/-- The `n`-th offset of the capability list. -/
def capOffset (n : Nat) : UInt8 :=
  (nextCap config addr)^[n] (pciByte config (addr + pciConfHdrCap))

/-- The list ends here, or the capability is the one that is looked for. -/
def CapStops (offset : UInt8) : Prop :=
  offset = 0 ∨ id = pciByte config (addr + offset.toUInt32)

instance decidableCapStops : DecidablePred (CapStops config addr id) :=
  fun _ => inferInstanceAs (Decidable (_ ∨ _))

/-- The first capability of the list with the identifier, or zero if the list ends without
one. -/
def FirstCap (offset : UInt8) : Prop :=
  ∃ n, capOffset config addr n = offset ∧ CapStops config addr id offset ∧
    ∀ k < n, ¬ CapStops config addr id (capOffset config addr k)

/-- Up to the capability that is looked for, or the end, no offset comes back. -/
def NoCapReturns : Prop :=
  ∀ i j, i < j → (∀ k < j, ¬ CapStops config addr id (capOffset config addr k)) →
    capOffset config addr j ≠ capOffset config addr i

end List

section Search

variable {addr : UInt32} {id value : UInt8} {fuel : Nat} {m : PciMachine}

theorem pciReadLong_run (addr : UInt32) (m : PciMachine) :
    pciReadLong addr m = .ok (pciLong m.config addr) { m with address := addr } :=
  rfl

theorem pciReadByte_run (addr : UInt32) (m : PciMachine) :
    pciReadByte addr m = .ok (pciByte m.config addr) { m with address := addr } := by
  have lane : pciDataPort + (addr &&& 3) - pciDataPort = addr &&& 3 := by
    rw [UInt32.add_comm, UInt32.add_sub_cancel]
  simp only [pciReadByte, inb, lane]
  rfl

/-- The loop returns where the walk along the list stops. -/
theorem capLoop_returns_iff {result : Result UInt8} :
    (∃ reached, capLoop addr id fuel value m = .ok result reached) ↔
      ∃ last, walk (CapStops m.config addr id) (nextCap m.config addr) fuel value = some last ∧
        Result.ok last = result := by
  induction fuel generalizing value m with
  | zero => simp [capLoop, walk]
  | succ fuel ih =>
      rw [capLoop, walk]
      by_cases finished : value = 0
      · have stops : CapStops m.config addr id value := .inl finished
        rw [if_neg (not_not.mpr finished), if_pos stops]
        simp
      · rw [if_pos finished, Prog.bind_ok (pciReadByte_run _ m)]
        by_cases found : id = pciByte m.config (addr + value.toUInt32)
        · have stops : CapStops m.config addr id value := .inr found
          rw [if_pos found, if_pos stops]
          simp
        · have going : ¬ CapStops m.config addr id value := not_or.mpr ⟨finished, found⟩
          rw [if_neg found, if_neg going, Prog.bind_ok (pciReadByte_run _ _)]
          exact ih

theorem pciDevFindCap_listed (listed : pciLong m.config (addr + pciConfHdrCmd) &&& 0x100000 ≠ 0) :
    ∃ between : PciMachine, between.config = m.config ∧ pciDevFindCap addr id fuel m =
      capLoop addr id fuel (pciByte m.config (addr + pciConfHdrCap)) between := by
  refine ⟨{ m with address := addr + pciConfHdrCap }, rfl, ?_⟩
  rw [pciDevFindCap, Prog.bind_ok (pciReadLong_run _ m), if_neg listed,
    Prog.bind_ok (pciReadByte_run _ _)]

/-- What is returned is where the walk from the head of the list stops. -/
theorem pciDevFindCap_returns_iff {result : Result UInt8}
    (listed : pciLong m.config (addr + pciConfHdrCmd) &&& 0x100000 ≠ 0) :
    (∃ reached, pciDevFindCap addr id fuel m = .ok result reached) ↔
      ∃ last, walk (CapStops m.config addr id) (nextCap m.config addr) fuel
          (pciByte m.config (addr + pciConfHdrCap)) = some last ∧ Result.ok last = result := by
  obtain ⟨between, same, run⟩ := @pciDevFindCap_listed addr id fuel m listed
  rw [run, ← same]
  exact capLoop_returns_iff

/-- A result is the first capability, or zero at the end of the list. -/
theorem pciDevFindCap_first {result : Result UInt8} {reached : PciMachine}
    (listed : pciLong m.config (addr + pciConfHdrCmd) &&& 0x100000 ≠ 0)
    (run : pciDevFindCap addr id fuel m = .ok result reached) :
    result.exception = .none ∧ FirstCap m.config addr id result.value := by
  obtain ⟨last, found, rfl⟩ := (pciDevFindCap_returns_iff listed).mp ⟨reached, run⟩
  obtain ⟨n, -, visits, stopped, place⟩ := walk_eq_some_iff.mp found
  exact ⟨rfl, n, place, place ▸ stopped, visits⟩

theorem pciDevFindCap_ends_iff
    (listed : pciLong m.config (addr + pciConfHdrCmd) &&& 0x100000 ≠ 0) :
    (∃ fuel result reached, pciDevFindCap addr id fuel m = .ok result reached) ↔
      NoCapReturns m.config addr id := by
  simp only [pciDevFindCap_returns_iff listed]
  have finite : Finite UInt8 :=
    Finite.of_injective UInt8.toFin fun _ _ same => UInt8.toFin_inj.mp same
  refine Iff.trans ?_ (@ends_iff_no_return _ (CapStops m.config addr id)
    (nextCap m.config addr) (pciByte m.config (addr + pciConfHdrCap)) finite)
  rw [ends_iff_walk]
  constructor
  · rintro ⟨fuel, _, last, found, -⟩
    exact ⟨fuel, last, found⟩
  · rintro ⟨fuel, last, found⟩
    exact ⟨fuel, _, last, found, rfl⟩

/-- The search returns, with the first capability that has the identifier or with zero at the
end of the list, exactly if no offset comes back before. -/
theorem pciDevFindCap_finds_iff (addr : UInt32) (id : UInt8) (m : PciMachine)
    (listed : pciLong m.config (addr + pciConfHdrCmd) &&& 0x100000 ≠ 0) :
    ((∃ fuel result reached, pciDevFindCap addr id fuel m = .ok result reached) ∧
        ∀ fuel result reached, pciDevFindCap addr id fuel m = .ok result reached →
          result.exception = .none ∧ FirstCap m.config addr id result.value) ↔
      NoCapReturns m.config addr id := by
  rw [← pciDevFindCap_ends_iff listed]
  exact ⟨And.left, fun ends => ⟨ends, fun _ _ _ run => pciDevFindCap_first listed run⟩⟩

/-- A device with one capability, at offset 0x40, and the given pointer to the next one. -/
def oneCap (next : UInt32) : PciMachine where
  config addr :=
    if addr = 0x8000c004 then 0x100000
    else if addr = 0x8000c034 then 0x40
    else if addr = 0x8000c040 then next <<< 8 ||| 0x05
    else 0
  address := 0

theorem pciDevFindCap_finds_oneCap :
    ((∃ fuel result reached, pciDevFindCap 0x8000c000 0x0f fuel (oneCap 0) = .ok result reached) ∧
        ∀ fuel result reached, pciDevFindCap 0x8000c000 0x0f fuel (oneCap 0) =
          .ok result reached →
          result.exception = .none ∧
            FirstCap (oneCap 0).config 0x8000c000 0x0f result.value) := by
  have returns : ∃ fuel result reached, pciDevFindCap 0x8000c000 0x0f fuel (oneCap 0) =
      .ok result reached :=
    ⟨2, _, _, rfl⟩
  exact (pciDevFindCap_finds_iff 0x8000c000 0x0f (oneCap 0) (by decide)).mpr
    ((pciDevFindCap_ends_iff (by decide)).mp returns)

/-- A capability that points to itself is followed for ever. -/
theorem pciDevFindCap_selfPointer :
    ¬ ((∃ fuel result reached, pciDevFindCap 0x8000c000 0x0f fuel (oneCap 0x40) =
          .ok result reached) ∧
        ∀ fuel result reached, pciDevFindCap 0x8000c000 0x0f fuel (oneCap 0x40) =
          .ok result reached →
          result.exception = .none ∧
            FirstCap (oneCap 0x40).config 0x8000c000 0x0f result.value) := by
  rintro ⟨returns, -⟩
  have apart := (pciDevFindCap_ends_iff (by decide)).mp returns 0 1 Nat.zero_lt_one
  refine apart (fun k before => ?_) (by decide)
  obtain rfl := Nat.lt_one_iff.mp before
  decide

end Search

end Sable
