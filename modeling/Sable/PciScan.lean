import Mathlib.Data.List.Basic
import Sable.PciCapabilities

/-!
# Looking for a PCI device

`pci_find_device` of `dev.c` goes through the buses, the devices and their functions.  The
functions behind the first one are looked at if the first one says that there are several.  The
last place with the identifier is found, on any bus but the last one.
-/

namespace Sable

open HaltingProgram

section Model

variable (id : UInt32)

/-- The loop over the functions of a device, where `device` is the address of the first one. -/
def functionLoop (device : UInt32) :
    Nat → UInt32 → UInt8 → UInt32 → Prog Halt PciMachine UInt32
  | 0, _, _, _ => Prog.halt .spin
  | fuel + 1, func, maxfunc, res =>
      if func ≤ maxfunc.toUInt32 then do
        let addr := device ||| func <<< 8
        let value ← pciReadLong addr
        let headerType ← pciReadByte (addr + 14)
        let res := if id = value then addr else res
        let maxfunc := if maxfunc = 0 ∧ headerType &&& 0x80 ≠ 0 then 7 else maxfunc
        functionLoop device fuel (func + 1) maxfunc res
      else return res

/-- The loop over the devices of a bus, with the number of devices that are left. -/
def deviceLoop (bus : UInt32) : Nat → UInt32 → UInt32 → Prog Halt PciMachine UInt32
  | 0, _, res => return res
  | left + 1, dev, res => do
      let res ← functionLoop id ((0x80000000 : UInt32) ||| bus <<< 16 ||| dev <<< 11) 9 0 0 res
      deviceLoop bus left (dev + 1) res

/-- The loop over the buses. -/
def busLoop : Nat → UInt32 → UInt32 → Prog Halt PciMachine UInt32
  | 0, _, res => return res
  | left + 1, bus, res => do
      let res ← deviceLoop id bus 32 0 res
      busLoop left (bus + 1) res

def pciFindDevice : Prog Halt PciMachine UInt32 :=
  busLoop id 255 0 0

end Model

section Places

variable (config : UInt32 → UInt32) (id : UInt32)

/-- The functions of a device that are looked at. -/
def functionPlaces (device : UInt32) : List UInt32 :=
  if pciByte config (device + 14) &&& 0x80 ≠ 0 then
    (List.range 8).map fun func => device ||| UInt32.ofNat func <<< 8
  else [device]

def devicePlaces (bus : UInt32) : List UInt32 :=
  (List.range 32).flatMap fun dev =>
    functionPlaces config ((0x80000000 : UInt32) ||| bus <<< 16 ||| UInt32.ofNat dev <<< 11)

/-- All places that are looked at, in their order. -/
def pciPlaces : List UInt32 :=
  (List.range 255).flatMap fun bus => devicePlaces config (UInt32.ofNat bus)

/-- The last place with the identifier. -/
def lastPlace (places : List UInt32) (res : UInt32) : UInt32 :=
  ((places.filter fun addr => id = pciLong config addr).getLast?).getD res

variable {config id}

theorem lastPlace_cons (addr : UInt32) (places : List UInt32) (res : UInt32) :
    lastPlace config id (addr :: places) res =
      lastPlace config id places (if id = pciLong config addr then addr else res) := by
  rw [lastPlace, lastPlace, List.filter_cons]
  by_cases found : id = pciLong config addr
  · simp [found, List.getLast?_cons]
  · simp [found]

theorem lastPlace_append (first second : List UInt32) (res : UInt32) :
    lastPlace config id (first ++ second) res =
      lastPlace config id second (lastPlace config id first res) := by
  induction first generalizing res with
  | nil => rfl
  | cons addr first ih => rw [List.cons_append, lastPlace_cons, ih, lastPlace_cons]

/-- A place that is found is one of those that are looked at, and has the identifier. -/
theorem lastPlace_mem {places : List UInt32} (some : lastPlace config id places 0 ≠ 0) :
    lastPlace config id places 0 ∈ places ∧ id = pciLong config (lastPlace config id places 0) := by
  unfold lastPlace at some ⊢
  cases last : (places.filter fun addr => id = pciLong config addr).getLast? with
  | none =>
      rw [last] at some
      exact (some rfl).elim
  | some addr =>
      have member := List.mem_filter.mp (List.mem_of_getLast? last)
      exact ⟨member.1, of_decide_eq_true member.2⟩

end Places

section Runs

variable {id device res : UInt32} {config : UInt32 → UInt32} {m : PciMachine}

/-- A program that reads the configuration space and returns a value. -/
def Scans (config : UInt32 → UInt32) (program : Prog Halt PciMachine UInt32) (value : UInt32) :
    Prop :=
  ∀ m, m.config = config → ∃ reached, program m = .ok value reached ∧ reached.config = config

theorem functionLoop_step (fuel : Nat) (func : UInt32) (maxfunc : UInt8) (res : UInt32)
    (inside : func ≤ maxfunc.toUInt32) (value : UInt32)
    (rest : Scans config (functionLoop id device fuel (func + 1)
      (if maxfunc = 0 ∧ pciByte config ((device ||| func <<< 8) + 14) &&& 0x80 ≠ 0 then 7
        else maxfunc)
      (if id = pciLong config (device ||| func <<< 8) then device ||| func <<< 8 else res)) value) :
    Scans config (functionLoop id device (fuel + 1) func maxfunc res) value := by
  rintro m rfl
  rw [functionLoop, if_pos inside, Prog.bind_ok (pciReadLong_run _ m),
    Prog.bind_ok (pciReadByte_run _ _)]
  exact rest _ rfl

/-- The address of a function of a device. -/
def functionAt (device : UInt32) (func : Nat) : UInt32 :=
  device ||| UInt32.ofNat func <<< 8

/-- The functions from some place on, if there are eight of them. -/
theorem functionLoop_several (fuel func : Nat) (rest : func + fuel = 9) (later : 1 ≤ func)
    (short : func ≤ 8) (res : UInt32) :
    Scans config (functionLoop id device fuel (UInt32.ofNat func) 7 res)
      (lastPlace config id ((List.range' func (8 - func)).map (functionAt device)) res) := by
  induction fuel generalizing func res with
  | zero => omega
  | succ fuel ih =>
      have number : (UInt32.ofNat func).toNat = func :=
        UInt32.toNat_ofNat_of_lt' (by simp only [UInt32.size]; omega)
      have seven : ((7 : UInt8).toUInt32).toNat = 7 := rfl
      by_cases inside : func ≤ 7
      · apply functionLoop_step fuel _ _ _ (UInt32.le_iff_toNat_le.mpr (by omega))
        have left : 8 - func = 8 - (func + 1) + 1 := by omega
        have same : ¬ ((7 : UInt8) = 0 ∧
            pciByte config ((device ||| UInt32.ofNat func <<< 8) + 14) &&& 0x80 ≠ 0) :=
          fun both => absurd both.1 (by decide)
        rw [left, List.range'_succ, List.map_cons, lastPlace_cons, if_neg same,
          ← UInt32.ofNat_one, ← UInt32.ofNat_add]
        exact ih (func + 1) (by omega) (by omega) (by omega) _
      · have last : ¬ UInt32.ofNat func ≤ (7 : UInt8).toUInt32 := by
          rw [UInt32.le_iff_toNat_le]
          omega
        have none : 8 - func = 0 := by omega
        rintro m rfl
        rw [functionLoop, if_neg last, none]
        exact ⟨m, rfl, rfl⟩

theorem functionLoop_reads (config : UInt32 → UInt32) (id device res : UInt32) :
    Scans config (functionLoop id device 9 0 0 res)
      (lastPlace config id (functionPlaces config device) res) := by
  have first : device ||| (0 : UInt32) <<< 8 = device := by
    simp
  apply functionLoop_step 8 0 0 res (by decide)
  rw [first, functionPlaces]
  by_cases several : pciByte config (device + 14) &&& 0x80 ≠ 0
  · have range : List.range 8 = 0 :: List.range' 1 7 := rfl
    rw [if_pos several, if_pos ⟨rfl, several⟩, range, List.map_cons, lastPlace_cons]
    have rest := @functionLoop_several id device config 8 1 rfl (Nat.le_refl 1) (by decide)
      (if id = pciLong config device then device else res)
    have same : device ||| UInt32.ofNat 0 <<< 8 = device := first
    rw [same]
    exact rest
  · rw [if_neg several, if_neg (fun both => several both.2), lastPlace_cons]
    rintro m rfl
    exact ⟨m, rfl, rfl⟩

/-- One loop runs after another. -/
theorem Scans.bind {value result : UInt32} {program : Prog Halt PciMachine UInt32}
    {next : UInt32 → Prog Halt PciMachine UInt32} (first : Scans config program value)
    (second : Scans config (next value) result) : Scans config (program >>= next) result := by
  intro m same
  obtain ⟨between, run, kept⟩ := first m same
  rw [Prog.bind_ok run]
  exact second between kept

theorem deviceLoop_reads (config : UInt32 → UInt32) (id bus : UInt32) (left dev : Nat)
    (res : UInt32) :
    Scans config (deviceLoop id bus left (UInt32.ofNat dev) res)
      (lastPlace config id ((List.range' dev left).flatMap fun dev =>
        functionPlaces config ((0x80000000 : UInt32) ||| bus <<< 16 |||
          UInt32.ofNat dev <<< 11)) res) := by
  induction left generalizing dev res with
  | zero =>
      rintro m rfl
      exact ⟨m, rfl, rfl⟩
  | succ left ih =>
      rw [List.range'_succ, List.flatMap_cons, lastPlace_append]
      apply (functionLoop_reads config id _ res).bind
      have next := ih (dev + 1)
      rw [UInt32.ofNat_add] at next
      exact next _

theorem busLoop_reads (config : UInt32 → UInt32) (id : UInt32) (left bus : Nat) (res : UInt32) :
    Scans config (busLoop id left (UInt32.ofNat bus) res)
      (lastPlace config id ((List.range' bus left).flatMap fun bus =>
        devicePlaces config (UInt32.ofNat bus)) res) := by
  induction left generalizing bus res with
  | zero =>
      rintro m rfl
      exact ⟨m, rfl, rfl⟩
  | succ left ih =>
      rw [List.range'_succ, List.flatMap_cons, lastPlace_append]
      have devices := deviceLoop_reads config id (UInt32.ofNat bus) 32 0 res
      rw [← List.range_eq_range'] at devices
      apply devices.bind
      have next := ih (bus + 1)
      rw [UInt32.ofNat_add] at next
      exact next _

/-- The search always ends, with the last place that has the identifier, or with zero. -/
theorem pciFindDevice_last (config : UInt32 → UInt32) (id : UInt32) :
    Scans config (pciFindDevice id) (lastPlace config id (pciPlaces config) 0) := by
  have buses := busLoop_reads config id 255 0 0
  rw [← List.range_eq_range'] at buses
  exact buses

/-- A place is the last one with the identifier. -/
def LastWith (config : UInt32 → UInt32) (id : UInt32) (places : List UInt32) (addr : UInt32) :
    Prop :=
  ∃ before after, places = before ++ addr :: after ∧ id = pciLong config addr ∧
    ∀ other ∈ after, id ≠ pciLong config other

theorem lastPlace_cases (config : UInt32 → UInt32) (id : UInt32) (places : List UInt32)
    (res : UInt32) :
    (lastPlace config id places res = res ∧ ∀ addr ∈ places, id ≠ pciLong config addr) ∨
      LastWith config id places (lastPlace config id places res) := by
  induction places generalizing res with
  | nil => exact .inl ⟨rfl, fun _ member => nomatch member⟩
  | cons addr places ih =>
      rw [lastPlace_cons]
      rcases ih (if id = pciLong config addr then addr else res) with ⟨same, none⟩ | later
      · by_cases found : id = pciLong config addr
        · rw [same, if_pos found]
          exact .inr ⟨[], places, rfl, found, none⟩
        · rw [same, if_neg found]
          exact .inl ⟨rfl, List.forall_mem_cons.mpr ⟨found, none⟩⟩
      · obtain ⟨before, after, split, found, none⟩ := later
        exact .inr ⟨addr :: before, after, congrArg (addr :: ·) split, found, none⟩

/-- The search leaves the devices alone and finds the last place with the identifier, or zero if
there is none. -/
theorem pciFindDevice_finds (id : UInt32) (m : PciMachine) :
    ∃ addr reached, pciFindDevice id m = .ok addr reached ∧ reached.config = m.config ∧
      ((addr = 0 ∧ ∀ place ∈ pciPlaces m.config, id ≠ pciLong m.config place) ∨
        LastWith m.config id (pciPlaces m.config) addr) := by
  obtain ⟨reached, run, kept⟩ := pciFindDevice_last m.config id m rfl
  exact ⟨_, reached, run, kept, lastPlace_cases m.config id _ 0⟩

end Runs

end Sable
