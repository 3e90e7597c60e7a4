import Sable.Heap

/-!
# The checks before a measured launch in `platform_checks.c`

The identification of the processor, the model specific registers and the results of
`getsec` are fixed; the control registers and the flags are changed by the checks.
-/

namespace Sable

open ByteMemory HaltingProgram

def cr0Pe : UInt32 := 0x1
def cr0Ne : UInt32 := 0x20
def cr0Nw : UInt32 := 0x20000000
def cr0Cd : UInt32 := 0x40000000
def cr4Smxe : UInt32 := 0x4000
def eflagsVm : UInt32 := 0x20000

/-- The results of `cpuid`. -/
structure CpuidRegs where
  ebx : UInt32
  ecx : UInt32
  edx : UInt32

/-- The results of `getsec` for a parameter. -/
structure GetsecRegs where
  eax : UInt32
  ebx : UInt32
  ecx : UInt32

/-- What the checks read: whether the flag for `cpuid` can be changed, the results of the
instructions, the registers of the chipset, whether the DMAR table is found, and memory. -/
structure LaunchMachine where
  idToggles : Bool
  cpuid : UInt32 → CpuidRegs
  rdmsr : UInt32 → UInt64
  getsecCapabilities : UInt32
  getsecParameters : UInt32 → GetsecRegs
  dmarFound : Bool
  ests : UInt64
  heapBase : UInt64
  heapSize : UInt64
  mem : Mem

/-- The registers that the checks change. -/
structure CpuState where
  cr0 : UInt32
  cr4 : UInt32
  eflags : UInt32
  deriving DecidableEq

section Flags

/-- `pushf` stores the flags without the flags VM and RF. -/
def readEflags : Prog Halt CpuState UInt32 := do
  let cpu ← Prog.get
  return cpu.eflags &&& ~~~0x30000

/-- At the highest privilege `popf` clears RF and leaves VM, VIF, VIP and the reserved bits
alone. -/
def writeEflags (value : UInt32) : Prog Halt CpuState Unit :=
  Prog.modify fun cpu =>
    { cpu with eflags := (value &&& 0x247fd5) ||| (cpu.eflags &&& ~~~0x257fd5) }

end Flags

variable (machine : LaunchMachine)

section Processor

/-- `g_feat_ctrl_msr`, the lower half of `IA32_FEATURE_CONTROL`. -/
def featCtrlMsr : UInt32 :=
  (machine.rdmsr 0x3a).toUInt32

/-- `g_cpuid_ext_feat_info`. -/
def cpuidExtFeatInfo : UInt32 :=
  (machine.cpuid 1).ecx

def readProcessorInfo : Bool :=
  if ¬ machine.idToggles then false
  else if (machine.cpuid 0).ebx ≠ 0x756e6547 ∨ (machine.cpuid 0).ecx ≠ 0x6c65746e ∨
      (machine.cpuid 0).edx ≠ 0x49656e69 then false
  else true

/-- `IA32_FEATURE_CONTROL_MSR_ENABLE_SENTER | IA32_FEATURE_CONTROL_MSR_SENTER_PARAM_CTL`. -/
def senterBits : UInt32 :=
  0x8000 ||| 0x7f00

def supportsSmx : Bool :=
  if cpuidExtFeatInfo machine &&& 0x40 = 0 then false
  else if featCtrlMsr machine &&& 1 = 0 then false
  else if featCtrlMsr machine &&& senterBits = 0 then false
  else true

def supportsVmx : Bool :=
  if cpuidExtFeatInfo machine &&& 0x20 = 0 then false
  else if featCtrlMsr machine &&& 2 = 0 then false
  else true

/-- A bit of `capabilities_t`. -/
def capable (bit : UInt32) : Bool :=
  machine.getsecCapabilities &&& bit ≠ 0

def supportsTxt : Prog Halt CpuState Bool := do
  if ¬ readProcessorInfo machine then return false
  if ¬ supportsSmx machine then return false
  if ¬ supportsVmx machine then return false
  Prog.modify fun cpu => { cpu with cr4 := cpu.cr4 ||| cr4Smxe }
  if capable machine 0x1 ∧ capable machine 0x10 ∧ capable machine 0x20 ∧
      capable machine 0x40 ∧ capable machine 0x80 ∧ capable machine 0x100 then
    return true
  Prog.modify fun cpu => { cpu with cr4 := cpu.cr4 &&& ~~~cr4Smxe }
  return false

end Processor

section Platform

/-- The result of `verify_bios_data`. -/
def biosDataVerified : Bool :=
  (verifyBiosData machine.heapBase machine.heapSize (getTxtHeap machine.heapBase)
    (.start machine.mem)).value? = some true

def txtVerifyPlatform : Bool :=
  if ¬ machine.dmarFound then false
  else if machine.ests &&& 1 ≠ 0 then false
  else biosDataVerified machine

end Platform

section Parameters

/-- `getsec_parameters_t` with the versions in use. -/
structure GetsecParameters where
  acmVersions : List (UInt32 × UInt32)
  acmMaxSize : UInt32
  acmMemTypes : UInt32
  senterControls : UInt32
  procBasedScrtm : Bool
  preserveMce : Bool

def defaultParameters : GetsecParameters where
  acmVersions := []
  acmMaxSize := 0x8000
  acmMemTypes := 0x100
  senterControls := 0
  procBasedScrtm := false
  preserveMce := false

/-- One parameter of a known type. -/
def takeParameter (params : GetsecParameters) (regs : GetsecRegs) : GetsecParameters :=
  let type := regs.eax &&& 0x1f
  if type = 1 then
    if params.acmVersions.length = 16 then params
    else { params with acmVersions := params.acmVersions ++ [(regs.ebx, regs.ecx)] }
  else if type = 2 then { params with acmMaxSize := regs.eax &&& 0xffffffe0 }
  else if type = 3 then { params with acmMemTypes := regs.eax &&& 0xffffffe0 }
  else if type = 4 then { params with senterControls := (regs.eax &&& 0x7fff) >>> 8 }
  else { params with
    procBasedScrtm := regs.eax &&& 0x20 ≠ 0
    preserveMce := regs.eax &&& 0x40 ≠ 0 }

/-- The loop over the parameters up to one of another type.  After all values of the index it
starts again and never ends. -/
def parametersLoop : Nat → UInt32 → GetsecParameters → Option GetsecParameters
  | 0, _, _ => none
  | fuel + 1, index, params =>
      let regs := machine.getsecParameters index
      if regs.eax &&& 0x1f = 0 ∨ regs.eax &&& 0x1f > 5 then some params
      else parametersLoop fuel (index + 1) (takeParameter params regs)

def getParameters : Prog Halt CpuState (Option GetsecParameters) := do
  Prog.modify fun cpu => { cpu with cr4 := cpu.cr4 ||| cr4Smxe }
  let cpu ← Prog.get
  if cpu.cr4 &&& cr4Smxe = 0 then return none
  match parametersLoop machine (2 ^ 32) 0 defaultParameters with
  | none => Prog.halt .spin
  | some params =>
      if params.acmVersions = [] then
        return some { params with acmVersions := [(0xffffffff, 0)] }
      else return some params

end Parameters

section Preparation

/-- The loop over the banks of the machine check. -/
def banksLoop (preserveMce : Bool) : Nat → UInt32 → Bool
  | 0, _ => true
  | count + 1, i =>
      if machine.rdmsr (0x401 + 4 * i) &&& 0x8000000000000000 ≠ 0 ∧ ¬ preserveMce then false
      else banksLoop preserveMce count (i + 1)

/-- The number of banks. -/
def bankCount : Nat :=
  (machine.rdmsr 0x179 &&& 0xff).toNat

/-- The value of CR0 for the launch. -/
def launchCr0 (cr0 : UInt32) : UInt32 :=
  let cr0 := if cr0 &&& cr0Cd ≠ 0 then cr0 &&& ~~~cr0Cd else cr0
  let cr0 := if cr0 &&& cr0Nw ≠ 0 then cr0 &&& ~~~cr0Nw else cr0
  if cr0 &&& cr0Ne = 0 then cr0 ||| cr0Ne else cr0

/-- Give up virtual 8086 mode. -/
def leaveVm : Prog Halt CpuState Unit := do
  let eflags ← readEflags
  if eflags &&& eflagsVm ≠ 0 then writeEflags (eflags ||| ~~~eflagsVm)

def txtPrepareCpu : Prog Halt CpuState Bool := do
  let cpu ← Prog.get
  if cpu.cr0 &&& cr0Pe = 0 then return false
  Prog.modify fun cpu => { cpu with cr0 := launchCr0 cpu.cr0 }
  leaveVm
  if machine.rdmsr 0x17a &&& 4 ≠ 0 then return false
  let params ← getParameters machine
  match params with
  | none => return false
  | some params => return banksLoop machine params.preserveMce (bankCount machine) 0

end Preparation

def platformPreChecks : Prog Halt CpuState Bool := do
  let supported ← supportsTxt machine
  if ¬ supported then return false
  if ¬ txtVerifyPlatform machine then return false
  let prepared ← txtPrepareCpu machine
  if ¬ prepared then return false
  return true

end Sable
