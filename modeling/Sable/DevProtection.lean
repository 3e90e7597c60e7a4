import Sable.PciScan

/-!
# The device exclusion vector

`dev.c` reaches the registers that keep devices away from memory through a capability of the
north bridge: one long selects a register, and the next one shows it.  A bridge without that
capability is refused, since its identifier cannot be taken for the header of the capability.
-/

namespace Sable

open HaltingProgram

section Model

/-- How a device answers: the long that the data port shows for an address, and what a write to
the data port does. -/
structure PciDevice (δ : Type) where
  config : δ → UInt32 → UInt32
  write : δ → UInt32 → UInt32 → δ

/-- The devices and the address register. -/
structure DevMachine (δ : Type) where
  world : δ
  address : UInt32

variable {δ : Type} (device : PciDevice δ)

/-- A program that only reads. -/
def reading {α : Type} (program : Prog Halt PciMachine α) : Prog Halt (DevMachine δ) α := fun m =>
  match program ⟨device.config m.world, m.address⟩ with
  | .ok value reached => .ok value { m with address := reached.address }
  | .halt reason reached => .halt reason { m with address := reached.address }

/-- `outl` to both ports. -/
def pciWriteLong (addr value : UInt32) : Prog Halt (DevMachine δ) Unit :=
  Prog.modify fun m => ⟨device.write m.world addr value, addr⟩

def devPciDeviceIdOld : UInt32 := 0x11031022
def devPciDeviceIdK10 : UInt32 := 0x12031022
def devPciDeviceIdBld : UInt32 := 0x14031022
def devPciDeviceIdLen : UInt32 := 0x141d1022
def devPciCapId : UInt8 := 0x0f
def devOffsetOp : UInt32 := 4
def devOffsetData : UInt32 := 8
def devRegBaseHi : UInt32 := 1
def devRegCap : UInt32 := 3
def devRegCr : UInt32 := 4
def devCrEn : UInt32 := (1 : UInt32) <<< 0
def devCrInvd : UInt32 := (1 : UInt32) <<< 4
def devCrSldev : UInt32 := (1 : UInt32) <<< 5

/-- What selects a register. -/
def devOp (func index : UInt32) : UInt32 :=
  func <<< 8 ||| index

def devReadReg (addr func index : UInt32) : Prog Halt (DevMachine δ) UInt32 := do
  pciWriteLong device (addr + devOffsetOp) (devOp func index)
  reading device (pciReadLong (addr + devOffsetData))

def devWriteReg (addr func index value : UInt32) : Prog Halt (DevMachine δ) Unit := do
  pciWriteLong device (addr + devOffsetOp) (devOp func index)
  pciWriteLong device (addr + devOffsetData) value

/-- `if (!value) value = pci_find_device(id)` -/
def findUnless (id value : UInt32) : Prog Halt PciMachine UInt32 :=
  if value = 0 then pciFindDevice id else return value

/-- The search for the north bridge, which may have one of several identifiers. -/
def devFindBridge : Prog Halt PciMachine UInt32 := do
  let value ← pciFindDevice devPciDeviceIdOld
  let value ← findUnless devPciDeviceIdK10 value
  let value ← findUnless devPciDeviceIdBld value
  findUnless devPciDeviceIdLen value

/-- `fuel` bounds the loop of `pci_dev_find_cap`. -/
def devGetAddr (fuel : Nat) : Prog Halt PciMachine (Result UInt32) := do
  let bridge ← devFindBridge
  if bridge = 0 then return .error .dev 0
  let cap ← pciDevFindCap bridge devPciCapId fuel
  if cap.exception ≠ .none then return .error cap.exception bridge
  let value := bridge + cap.value.toUInt32
  if value = 0 then return .error .dev value
  let header ← pciReadLong value
  if header &&& 0xf00ff ≠ 0xf then return .error .dev value
  return .ok value

def disableDevProtection (fuel : Nat) : Prog Halt (DevMachine δ) (Result Unit) := do
  let addr ← reading device (devGetAddr fuel)
  if addr.exception ≠ .none then return .error addr.exception ()
  let control ← devReadReg device addr.value devRegCr 0
  devWriteReg device addr.value devRegCr 0 (control &&& ~~~(devCrSldev ||| devCrEn ||| devCrInvd))
  return .ok ()

/-- The loop of `enable_dev_bitmap`.  Both writes go to the same register. -/
def bitmapLoop (addr base : UInt32) : Nat → Prog Halt (DevMachine δ) Unit
  | 0 => return ()
  | dom + 1 => do
      devWriteReg device addr devRegBaseHi (UInt32.ofNat (dom + 1)) 0
      devWriteReg device addr devRegBaseHi (UInt32.ofNat (dom + 1)) (base ||| 3)
      bitmapLoop addr base dom

def enableDevBitmap (addr base : UInt32) : Prog Halt (DevMachine δ) UInt32 := do
  let cap ← devReadReg device addr devRegCap 0
  let dom := cap >>> 8 &&& 0xff
  bitmapLoop device addr base dom.toNat
  let control ← devReadReg device addr devRegCr 0
  devWriteReg device addr devRegCr 0 (control ||| devCrEn ||| devCrInvd)
  return 0

end Model

section Bridge

variable {config : UInt32 → UInt32} {m reached : PciMachine} {addr bridge : UInt32} {fuel : Nat}

def bridgeIds : List UInt32 :=
  [devPciDeviceIdOld, devPciDeviceIdK10, devPciDeviceIdBld, devPciDeviceIdLen]

/-- A place is null or one that is looked at, with an identifier of a north bridge. -/
def BridgeAt (config : UInt32 → UInt32) (addr : UInt32) : Prop :=
  addr ≠ 0 → addr ∈ pciPlaces config ∧ pciLong config addr ∈ bridgeIds

theorem bridgeAt_lastPlace {id : UInt32} (known : id ∈ bridgeIds) :
    BridgeAt config (lastPlace config id (pciPlaces config) 0) := by
  intro some
  obtain ⟨inside, same⟩ := lastPlace_mem some
  exact ⟨inside, same ▸ known⟩

/-- A program that only reads, and whose value has a property. -/
def Finds (config : UInt32 → UInt32) (program : Prog Halt PciMachine UInt32)
    (property : UInt32 → Prop) : Prop :=
  ∃ value, Scans config program value ∧ property value

theorem Finds.bind {property other : UInt32 → Prop} {program : Prog Halt PciMachine UInt32}
    {next : UInt32 → Prog Halt PciMachine UInt32} (first : Finds config program property)
    (second : ∀ value, property value → Finds config (next value) other) :
    Finds config (program >>= next) other := by
  obtain ⟨value, reads, holds⟩ := first
  obtain ⟨result, rest, known⟩ := second value holds
  exact ⟨result, reads.bind rest, known⟩

theorem pciFindDevice_bridge {id : UInt32} (known : id ∈ bridgeIds) :
    Finds config (pciFindDevice id) (BridgeAt config) :=
  ⟨_, pciFindDevice_last config id, bridgeAt_lastPlace known⟩

theorem findUnless_bridge {id value : UInt32} (known : id ∈ bridgeIds)
    (before : BridgeAt config value) : Finds config (findUnless id value) (BridgeAt config) := by
  unfold findUnless
  by_cases none : value = 0
  · rw [if_pos none]
    exact pciFindDevice_bridge known
  · rw [if_neg none]
    exact ⟨value, fun m same => ⟨m, rfl, same⟩, before⟩

theorem devFindBridge_finds (config : UInt32 → UInt32) :
    Finds config devFindBridge (BridgeAt config) := by
  unfold devFindBridge
  apply (pciFindDevice_bridge (by decide)).bind
  intro value before
  apply (findUnless_bridge (by decide) before).bind
  intro value before
  apply (findUnless_bridge (by decide) before).bind
  intro value before
  exact findUnless_bridge (by decide) before

/-- The search for a capability leaves the devices alone. -/
theorem capLoop_config {id : UInt8} {value : UInt8} :
    Prog.Preserves PciMachine.config (capLoop addr id fuel value) := by
  induction fuel generalizing value with
  | zero => exact fun _ => rfl
  | succ fuel ih =>
      unfold capLoop
      apply Prog.Preserves.ite
      · apply Prog.Preserves.bind (fun _ => rfl)
        intro found
        apply Prog.Preserves.ite (fun _ => rfl)
        exact Prog.Preserves.bind (fun _ => rfl) fun _ => ih
      · exact fun _ => rfl

theorem pciDevFindCap_config {id : UInt8} :
    Prog.Preserves PciMachine.config (pciDevFindCap addr id fuel) := by
  apply Prog.Preserves.bind (fun _ => rfl)
  intro command
  apply Prog.Preserves.ite (fun _ => rfl)
  exact Prog.Preserves.bind (fun _ => rfl) fun _ => capLoop_config

/-- The header of the capability, as `dev_get_addr` checks it. -/
def devHeader (header : UInt32) : Prop :=
  header &&& 0xf00ff = 0xf

instance decidableDevHeader (header : UInt32) : Decidable (devHeader header) :=
  inferInstanceAs (Decidable (header &&& 0xf00ff = 0xf))

/-- The capability of a north bridge through which the registers are reached. -/
def DevBlock (config : UInt32 → UInt32) (addr : UInt32) : Prop :=
  ∃ bridge ∈ pciPlaces config, pciLong config bridge ∈ bridgeIds ∧
    ∃ offset, offset ≠ 0 ∧ FirstCap config bridge devPciCapId offset ∧
      addr = bridge + offset.toUInt32 ∧ devHeader (pciLong config addr)

/-- No identifier of a bridge looks like the header. -/
theorem not_devHeader_id : ∀ id ∈ bridgeIds, ¬ devHeader id := by
  have all : bridgeIds.all (fun id => decide (¬ devHeader id)) = true := rfl
  exact fun id known => of_decide_eq_true (List.all_eq_true.mp all id known)

theorem pciDevFindCap_found {id : UInt8} {cap : Result UInt8}
    (run : pciDevFindCap bridge id fuel m = .ok cap reached) (passed : cap.exception = .none) :
    FirstCap m.config bridge id cap.value := by
  by_cases listed : pciLong m.config (bridge + pciConfHdrCmd) &&& 0x100000 = 0
  · rw [pciDevFindCap, Prog.bind_ok (pciReadLong_run _ m), if_pos listed] at run
    cases run
    cases passed
  · exact (pciDevFindCap_first listed run).2

/-- The address is that of a capability, even where the bridge may have none. -/
theorem devGetAddr_block (run : devGetAddr fuel m = .ok (.ok addr) reached) :
    DevBlock m.config addr := by
  obtain ⟨bridge, reads, place⟩ := devFindBridge_finds m.config
  obtain ⟨found, finds, same⟩ := reads m rfl
  have refused (value : UInt32) : (Result.error .dev value : Result UInt32) ≠ .ok addr :=
    fun equal => nomatch congrArg Result.exception equal
  rw [devGetAddr, Prog.bind_ok finds, Prog.ite_pure_eq_ok (refused 0)] at run
  obtain ⟨some, run⟩ := run
  obtain ⟨inside, known⟩ := place some
  obtain ⟨cap, between, search, run⟩ := Prog.bind_eq_ok.mp run
  have kept : between.config = m.config := (pciDevFindCap_config.eq_of_ok search).trans same
  by_cases failed : cap.exception ≠ .none
  · rw [if_pos failed] at run
    have equal := congrArg Result.exception (Outcome.ok.inj run).1
    exact (failed equal).elim
  have first := pciDevFindCap_found search (Decidable.of_not_not failed)
  rw [same] at first
  rw [if_neg failed, Prog.ite_pure_eq_ok (refused _)] at run
  rw [Prog.bind_ok (pciReadLong_run _ between), Prog.ite_pure_eq_ok (refused _), kept] at run
  obtain ⟨-, checked, run⟩ := run
  have header := not_ne_iff.mp checked
  have value : bridge + cap.value.toUInt32 = addr :=
    congrArg Result.value (Outcome.ok.inj run).1
  rw [value] at header
  refine ⟨bridge, inside, known, cap.value, ?_, first, value.symm, header⟩
  intro none
  rw [none] at value
  have bridgeSelf : bridge = addr := (UInt32.add_zero bridge).symm.trans value
  rw [← bridgeSelf] at header
  exact not_devHeader_id _ known header

end Bridge

section Registers

variable {δ : Type} {device : PciDevice δ} {addr base : UInt32} {reg : δ → UInt32 → UInt32}

/-- The capability gives access to the registers: the first long selects one of them, and the
second one shows and sets it. -/
structure PciDevice.Indexed (device : PciDevice δ) (addr : UInt32) (reg : δ → UInt32 → UInt32) :
    Prop where
  keeps (world : δ) (op : UInt32) : reg (device.write world (addr + devOffsetOp) op) = reg world
  selects (world : δ) (op : UInt32) :
    pciLong (device.config (device.write world (addr + devOffsetOp) op)) (addr + devOffsetData) =
      reg world op
  stores (world : δ) (op value : UInt32) :
    reg (device.write (device.write world (addr + devOffsetOp) op) (addr + devOffsetData) value) =
      Function.update (reg world) op value

/-- The registers have these values. -/
def RegsAre (reg : δ → UInt32 → UInt32) (file : UInt32 → UInt32) (m : DevMachine δ) : Prop :=
  reg m.world = file

theorem devReadReg_returns (indexed : device.Indexed addr reg) (func index : UInt32)
    (file : UInt32 → UInt32) :
    Prog.Returns (RegsAre reg file) (devReadReg device addr func index)
      fun value m => value = file (devOp func index) ∧ RegsAre reg file m := by
  rintro m rfl
  exact ⟨_, _, rfl, indexed.selects _ _, indexed.keeps _ _⟩

theorem devWriteReg_returns (indexed : device.Indexed addr reg) (func index value : UInt32)
    (file : UInt32 → UInt32) :
    Prog.Returns (RegsAre reg file) (devWriteReg device addr func index value)
      fun _ => RegsAre reg (Function.update file (devOp func index) value) := by
  rintro m rfl
  exact ⟨(), _, rfl, indexed.stores _ _ _⟩

/-- The domains up to the given one have a base address. -/
def baseFile (base : UInt32) (dom : Nat) (file : UInt32 → UInt32) : UInt32 → UInt32 :=
  fun op =>
    if ∃ i < dom, op = devOp devRegBaseHi (UInt32.ofNat (i + 1)) then base ||| 3 else file op

theorem baseFile_succ (dom : Nat) (file : UInt32 → UInt32) :
    baseFile base dom
        (Function.update file (devOp devRegBaseHi (UInt32.ofNat (dom + 1))) (base ||| 3)) =
      baseFile base (dom + 1) file := by
  funext op
  simp only [baseFile, Nat.exists_lt_succ_right]
  by_cases below : ∃ i < dom, op = devOp devRegBaseHi (UInt32.ofNat (i + 1))
  · rw [if_pos below, if_pos (.inl below)]
  · rw [if_neg below, Function.update_apply]
    simp only [below, false_or]

theorem bitmapLoop_returns (indexed : device.Indexed addr reg) (dom : Nat)
    (file : UInt32 → UInt32) :
    Prog.Returns (RegsAre reg file) (bitmapLoop device addr base dom)
      fun _ => RegsAre reg (baseFile base dom file) := by
  induction dom generalizing file with
  | zero =>
      apply Prog.Returns.ret
      intro m holds
      have none : baseFile base 0 file = file := by
        funext op
        simp [baseFile]
      rwa [none]
  | succ dom ih =>
      apply (devWriteReg_returns indexed _ _ _ file).bind
      intro _
      apply (devWriteReg_returns indexed _ _ _ _).bind
      intro _
      rw [Function.update_idem, ← baseFile_succ]
      exact ih _

/-- The number of domains, which a register shows. -/
def devDomains (file : UInt32 → UInt32) : Nat :=
  (file (devOp devRegCap 0) >>> 8 &&& 0xff).toNat

theorem devDomains_lt (file : UInt32 → UInt32) : devDomains file < 256 := by
  have low : (file (devOp devRegCap 0) >>> 8 &&& 0xff).toNat ≤ 0xff := by
    rw [UInt32.toNat_and]
    exact Nat.and_le_right
  exact Nat.lt_succ_of_le low

theorem devOp_baseHi_ne {i : Nat} (below : i < 256) :
    devOp devRegBaseHi (UInt32.ofNat i) ≠ devOp devRegCr 0 := by
  intro same
  have small : (256 ||| UInt32.ofNat i : UInt32).toNat < 2 ^ 9 := by
    rw [UInt32.toNat_or, UInt32.toNat_ofNat_of_lt' (by simp only [UInt32.size]; omega)]
    exact Nat.or_lt_two_pow (by decide) (by omega)
  have large : (256 ||| UInt32.ofNat i : UInt32).toNat = 1024 := congrArg UInt32.toNat same
  omega

theorem enableDevBitmap_returns (indexed : device.Indexed addr reg) (file : UInt32 → UInt32) :
    Prog.Returns (RegsAre reg file) (enableDevBitmap device addr base) fun value m =>
      value = 0 ∧ RegsAre reg (Function.update (baseFile base (devDomains file) file)
        (devOp devRegCr 0) (file (devOp devRegCr 0) ||| devCrEn ||| devCrInvd)) m := by
  have control : baseFile base (devDomains file) file (devOp devRegCr 0) =
      file (devOp devRegCr 0) := by
    apply if_neg
    rintro ⟨i, below, same⟩
    exact devOp_baseHi_ne (i := i + 1) (by have := devDomains_lt file; omega) same.symm
  unfold enableDevBitmap
  apply (devReadReg_returns indexed _ _ file).bind
  intro cap m known
  obtain ⟨rfl, holds⟩ := known
  refine Prog.Returns.bind (bitmapLoop_returns indexed _ file) (fun _ => ?_) m holds
  apply (devReadReg_returns indexed _ _ _).bind
  intro value m known
  obtain ⟨rfl, holds⟩ := known
  rw [← control]
  refine Prog.Returns.bind (devWriteReg_returns indexed _ _ _ _) (fun _ => ?_) m holds
  exact Prog.Returns.ret fun m holds => ⟨rfl, holds⟩

/-- Every domain but the first one gets its base address, of which only the register for the
high half is written, and the protection is turned on.  No other register changes. -/
theorem enableDevBitmap_registers (indexed : device.Indexed addr reg) (m : DevMachine δ) :
    ∃ reached, enableDevBitmap device addr base m = .ok 0 reached ∧
      reg reached.world (devOp devRegCr 0) =
        reg m.world (devOp devRegCr 0) ||| devCrEn ||| devCrInvd ∧
      (∀ i < devDomains (reg m.world),
        reg reached.world (devOp devRegBaseHi (UInt32.ofNat (i + 1))) = base ||| 3) ∧
      ∀ op ≠ devOp devRegCr 0,
        (∀ i < devDomains (reg m.world), op ≠ devOp devRegBaseHi (UInt32.ofNat (i + 1))) →
        reg reached.world op = reg m.world op := by
  obtain ⟨value, reached, run, rfl, holds⟩ :=
    @enableDevBitmap_returns _ _ _ base _ indexed (reg m.world) m rfl
  unfold RegsAre at holds
  refine ⟨reached, run, ?_, ?_, ?_⟩
  · rw [holds, Function.update_self]
  · intro i below
    have other := devOp_baseHi_ne (i := i + 1) (by have := devDomains_lt (reg m.world); omega)
    rw [holds, Function.update_of_ne other]
    exact if_pos ⟨i, below, rfl⟩
  · intro op control domain
    rw [holds, Function.update_of_ne control]
    apply if_neg
    rintro ⟨i, below, same⟩
    exact domain i below same

theorem reading_ok {α : Type} {program : Prog Halt PciMachine α} {m : DevMachine δ}
    {last : PciMachine} {value : α}
    (run : program ⟨device.config m.world, m.address⟩ = .ok value last) :
    reading device program m = .ok value { m with address := last.address } := by
  rw [reading, run]

theorem reading_eq_ok {α : Type} {program : Prog Halt PciMachine α} {m reached : DevMachine δ}
    {value : α} (run : reading device program m = .ok value reached) :
    reached.world = m.world ∧
      ∃ last, program ⟨device.config m.world, m.address⟩ = .ok value last := by
  unfold reading at run
  cases outcome : program ⟨device.config m.world, m.address⟩ with
  | ok result last =>
      rw [outcome] at run
      cases run
      exact ⟨rfl, last, rfl⟩
  | halt reason last =>
      rw [outcome] at run
      cases run

/-- The registers after `disable_dev_protection`. -/
def clearedFile (file : UInt32 → UInt32) : UInt32 → UInt32 :=
  Function.update file (devOp devRegCr 0)
    (file (devOp devRegCr 0) &&& ~~~(devCrSldev ||| devCrEn ||| devCrInvd))

/-- The protection is turned off through the registers of the bridge, and no other register
changes.  If this fails, nothing is written. -/
theorem disableDevProtection_clears {fuel : Nat} {m reached : DevMachine δ} {result : Result Unit}
    (run : disableDevProtection device fuel m = .ok result reached) :
    (result.exception ≠ .none ∧ reached.world = m.world) ∨
      (result = .ok () ∧ ∃ addr last,
        devGetAddr fuel ⟨device.config m.world, m.address⟩ = .ok (.ok addr) last ∧
        DevBlock (device.config m.world) addr ∧
        ∀ reg, device.Indexed addr reg → reg reached.world = clearedFile (reg m.world)) := by
  obtain ⟨⟨exception, addr⟩, between, first, run⟩ := Prog.bind_eq_ok.mp run
  obtain ⟨kept, last, found⟩ := reading_eq_ok first
  by_cases failed : exception ≠ .none
  · rw [if_pos failed] at run
    cases run
    exact .inl ⟨failed, kept⟩
  · obtain rfl := not_ne_iff.mp failed
    change devGetAddr fuel _ = .ok (.ok addr) last at found
    rw [if_neg failed] at run
    obtain ⟨control, selected, read, run⟩ := Prog.bind_eq_ok.mp run
    obtain ⟨written, stored, write, run⟩ := Prog.bind_eq_ok.mp run
    cases run
    have block := devGetAddr_block found
    refine .inr ⟨rfl, addr, last, found, block, ?_⟩
    intro reg indexed
    have selects := (devReadReg_returns indexed devRegCr 0 _).of_ok rfl read
    have stores := (devWriteReg_returns indexed devRegCr 0 _ _).of_ok selects.2 write
    rw [selects.1, RegsAre, kept] at stores
    exact stores

end Registers

section SampleDevice

/-- A bridge at the last device, with one capability. -/
def demoDevice : PciDevice (UInt32 × (UInt32 → UInt32)) where
  config := fun world addr =>
    if addr = 0x80fef800 then devPciDeviceIdOld
    else if addr = 0x80fef804 then 0x100000
    else if addr = 0x80fef834 then 0x40
    else if addr = 0x80fef840 then 0xf
    else if addr = 0x80fef848 then world.2 world.1
    else 0
  write := fun world addr value =>
    if addr = 0x80fef844 then (value, world.2)
    else if addr = 0x80fef848 then (world.1, Function.update world.2 world.1 value)
    else world

theorem demoDevice_indexed : demoDevice.Indexed 0x80fef840 Prod.snd where
  keeps := fun _ _ => rfl
  selects := fun _ _ => rfl
  stores := fun _ _ _ => rfl

/-- A bridge at the last device is found. -/
theorem pciFindDevice_lastDevice {config : UInt32 → UInt32} {id : UInt32}
    (single : pciByte config (0x80fef800 + 14) &&& 0x80 = 0)
    (same : id = pciLong config 0x80fef800) :
    Scans config (pciFindDevice id) 0x80fef800 := by
  have search := pciFindDevice_last config id
  have last : functionPlaces config 0x80fef800 = [0x80fef800] :=
    if_neg (not_not.mpr single)
  have bus : ∃ before, devicePlaces config (UInt32.ofNat 254) = before ++ [0x80fef800] := by
    rw [devicePlaces, List.range_succ, List.flatMap_append, List.flatMap_singleton]
    exact ⟨_, congrArg (_ ++ ·) last⟩
  have places : ∃ before, pciPlaces config = before ++ [0x80fef800] := by
    obtain ⟨before, split⟩ := bus
    rw [pciPlaces, List.range_succ, List.flatMap_append, List.flatMap_singleton, split,
      ← List.append_assoc]
    exact ⟨_, rfl⟩
  obtain ⟨before, split⟩ := places
  rw [split, lastPlace_append, lastPlace_cons, if_pos same] at search
  exact search

def demoMachine : DevMachine (UInt32 × (UInt32 → UInt32)) :=
  ⟨(0, fun _ => 0xff), 0⟩

def demoConfig : UInt32 → UInt32 :=
  demoDevice.config demoMachine.world

theorem devFindBridge_demo :
    ∃ address, devFindBridge ⟨demoConfig, 0⟩ = .ok 0x80fef800 ⟨demoConfig, address⟩ := by
  obtain ⟨⟨config, address⟩, search, kept⟩ :=
    @pciFindDevice_lastDevice demoConfig devPciDeviceIdOld (by decide) (by decide)
      ⟨demoConfig, 0⟩ rfl
  obtain rfl : config = demoConfig := kept
  refine ⟨address, ?_⟩
  rw [devFindBridge, Prog.bind_ok search]
  rfl

theorem pciDevFindCap_demo (address : UInt32) :
    pciDevFindCap 0x80fef800 devPciCapId 4 ⟨demoConfig, address⟩ =
      .ok (.ok 0x40) ⟨demoConfig, 0x80fef840⟩ := by
  have listed : ¬ pciLong demoConfig (0x80fef800 + pciConfHdrCmd) &&& 0x100000 = 0 := by
    decide
  have head : pciByte demoConfig (0x80fef800 + pciConfHdrCap) = 0x40 := by
    decide
  have found : devPciCapId = pciByte demoConfig (0x80fef800 + (0x40 : UInt8).toUInt32) := by
    decide
  rw [pciDevFindCap, Prog.bind_ok (pciReadLong_run _ _), if_neg listed,
    Prog.bind_ok (pciReadByte_run _ _), head, capLoop, if_pos (by decide),
    Prog.bind_ok (pciReadByte_run _ _), if_pos found]
  rfl

theorem devGetAddr_demo :
    devGetAddr 4 ⟨demoConfig, 0⟩ = .ok (.ok 0x80fef840) ⟨demoConfig, 0x80fef840⟩ := by
  have header : ¬ pciLong demoConfig (0x80fef800 + (0x40 : UInt8).toUInt32) &&& 0xf00ff ≠ 0xf := by
    decide
  obtain ⟨address, bridge⟩ := devFindBridge_demo
  rw [devGetAddr, Prog.bind_ok bridge, if_neg (by decide),
    Prog.bind_ok (pciDevFindCap_demo address), if_neg (by decide)]
  change (if (0x80fef840 : UInt32) = 0 then _ else _ : Prog Halt PciMachine _) _ = _
  rw [if_neg (by decide), Prog.bind_ok (pciReadLong_run _ _)]
  exact congrFun (if_neg header) _

/-- The three bits of the control register are cleared. -/
theorem disableDevProtection_clears_last :
    ∃ reached, disableDevProtection demoDevice 4 demoMachine = .ok (.ok ()) reached ∧
      reached.world.2 0x400 = 0xce := by
  have found : reading demoDevice (devGetAddr 4) demoMachine =
      .ok (.ok 0x80fef840) ⟨demoMachine.world, 0x80fef840⟩ :=
    reading_ok devGetAddr_demo
  have run : ∃ reached, disableDevProtection demoDevice 4 demoMachine = .ok (.ok ()) reached := by
    rw [disableDevProtection, Prog.bind_ok found]
    exact ⟨_, rfl⟩
  obtain ⟨reached, returns⟩ := run
  refine ⟨reached, returns, ?_⟩
  rcases disableDevProtection_clears returns with ⟨failed, -⟩ | ⟨-, addr, last, same, -, clears⟩
  · exact (failed rfl).elim
  · have again := devGetAddr_demo.symm.trans same
    obtain rfl : 0x80fef840 = addr := congrArg Result.value (Outcome.ok.inj again).1
    rw [clears Prod.snd demoDevice_indexed]
    decide

/-- Three domains get the base address, and the fourth one does not. -/
theorem enableDevBitmap_registers_three :
    ∃ reached, enableDevBitmap demoDevice 0x80fef840 0x30000 ⟨(0, fun _ => 0x300), 0⟩ =
        .ok 0 reached ∧
      reached.world.2 0x400 = 0x311 ∧ reached.world.2 0x101 = 0x30003 ∧
        reached.world.2 0x103 = 0x30003 ∧ reached.world.2 0x104 = 0x300 := by
  obtain ⟨reached, run, control, domain, other⟩ :=
    @enableDevBitmap_registers _ _ _ 0x30000 _ demoDevice_indexed ⟨(0, fun _ => 0x300), 0⟩
  exact ⟨reached, run, control, domain 0 (by decide), domain 2 (by decide),
    other 0x104 (by decide) (by decide)⟩

end SampleDevice

end Sable
