import Sable.HeapRegions
import Sable.PlatformChecks

/-!
# What the checks before a measured launch guarantee

The checks pass exactly for the machines described below.  One of the conditions is
weaker than what a launch needs, since a single bit of a mask is enough for it, and the
test for virtual 8086 mode has no effect.
-/

namespace Sable

open ByteMemory HaltingProgram

section Bits

variable {word first second : UInt32}

theorem and_clear_self : word &&& ~~~first &&& first = 0 := by
  rw [UInt32.and_assoc, UInt32.not_and_self, UInt32.and_zero]

/-- Clearing bits keeps other bits. -/
theorem and_clear_of_apart (apart : ~~~first &&& second = second) :
    word &&& ~~~first &&& second = word &&& second := by
  rw [UInt32.and_assoc, apart]

/-- Setting bits keeps other bits. -/
theorem or_and_of_apart (apart : first &&& second = 0) :
    (word ||| first) &&& second = word &&& second := by
  apply UInt32.toBitVec_inj.mp
  apply BitVec.eq_of_getLsbD_eq
  intro i inside
  have none := congrArg (fun word : UInt32 => word.toBitVec.getLsbD i) apart
  simp only [UInt32.toBitVec_and, UInt32.toBitVec_or, BitVec.getLsbD_and,
    BitVec.getLsbD_or] at none ⊢
  cases one : first.toBitVec.getLsbD i
  · simp
  · have two : second.toBitVec.getLsbD i = false := by simpa [one] using none
    simp [two]

theorem or_and_self : (word ||| first) &&& first = first := by
  apply UInt32.toBitVec_inj.mp
  apply BitVec.eq_of_getLsbD_eq
  intro i inside
  simp only [UInt32.toBitVec_and, UInt32.toBitVec_or, BitVec.getLsbD_and, BitVec.getLsbD_or]
  cases first.toBitVec.getLsbD i <;> simp

/-- Clear a bit field if it is set. -/
def cleared (word mask : UInt32) : UInt32 :=
  if word &&& mask ≠ 0 then word &&& ~~~mask else word

theorem cleared_and_self : cleared word first &&& first = 0 := by
  unfold cleared
  split
  · exact and_clear_self
  next clear => exact not_not.mp clear

theorem cleared_and_of_apart (apart : ~~~first &&& second = second) :
    cleared word first &&& second = word &&& second := by
  unfold cleared
  split
  · exact and_clear_of_apart apart
  · rfl

/-- The value of CR0 for the launch. -/
theorem launchCr0_spec (cr0 : UInt32) :
    launchCr0 cr0 &&& cr0Pe = cr0 &&& cr0Pe ∧ launchCr0 cr0 &&& cr0Ne ≠ 0 ∧
      launchCr0 cr0 &&& cr0Cd = 0 ∧ launchCr0 cr0 &&& cr0Nw = 0 := by
  have same : launchCr0 cr0 =
    if cleared (cleared cr0 cr0Cd) cr0Nw &&& cr0Ne = 0 then
      cleared (cleared cr0 cr0Cd) cr0Nw ||| cr0Ne
    else cleared (cleared cr0 cr0Cd) cr0Nw := rfl
  have pe : cleared (cleared cr0 cr0Cd) cr0Nw &&& cr0Pe = cr0 &&& cr0Pe := by
    rw [cleared_and_of_apart (by decide), cleared_and_of_apart (by decide)]
  have cd : cleared (cleared cr0 cr0Cd) cr0Nw &&& cr0Cd = 0 := by
    rw [cleared_and_of_apart (by decide), cleared_and_self]
  have nw : cleared (cleared cr0 cr0Cd) cr0Nw &&& cr0Nw = 0 := cleared_and_self
  rw [same]
  split
  · refine ⟨?_, ?_, ?_, ?_⟩
    · rw [or_and_of_apart (by decide), pe]
    · rw [or_and_self]
      decide
    · rw [or_and_of_apart (by decide), cd]
    · rw [or_and_of_apart (by decide), nw]
  next set => exact ⟨pe, set, cd, nw⟩

end Bits

section Prerequisites

/-- The firmware data that `verify_bios_data` asks for. -/
structure BiosDataValid (machine : LaunchMachine) : Prop where
  present : getTxtHeap machine.heapBase ≠ 0 ∧ machine.heapSize ≠ 0
  size : word64 machine.mem (getTxtHeap machine.heapBase) 0 ≠ 0 ∧
    word64 machine.mem (getTxtHeap machine.heapBase) 0 ≤ machine.heapSize
  version : 2 ≤ word32 machine.mem (getTxtHeap machine.heapBase + 8) 0
  procs : 1 ≤ word32 machine.mem (getTxtHeap machine.heapBase + 8 + 24) 0 ∧
    word32 machine.mem (getTxtHeap machine.heapBase + 8 + 24) 0 ≤ nrCpus
  elements : 4 ≤ word32 machine.mem (getTxtHeap machine.heapBase + 8) 0 ∧
      36 + 8 < word64 machine.mem (getTxtHeap machine.heapBase) 0 →
    ∃ m final, m.mem = machine.mem ∧
      verifyExtDataElts (getTxtHeap machine.heapBase + 8 + 36)
        (word64 machine.mem (getTxtHeap machine.heapBase) 0 - 36 - 8).toUInt32 m = .ok true final

/-- The leaves of `getsec` that a launch needs, and the chipset. -/
def LeavesAvailable (machine : LaunchMachine) : Prop :=
  capable machine 0x1 ∧ capable machine 0x10 ∧ capable machine 0x20 ∧
    capable machine 0x40 ∧ capable machine 0x80 ∧ capable machine 0x100

/-- The processor keeps machine check errors over a launch. -/
def PreservesMce (machine : LaunchMachine) : Prop :=
  ∃ params, parametersLoop machine (2 ^ 32) 0 defaultParameters = some params ∧
    params.preserveMce = true

/-- The valid bit of a bank is clear. -/
def BankClear (machine : LaunchMachine) (i : Nat) : Prop :=
  machine.rdmsr (0x401 + 4 * UInt32.ofNat i) &&& 0x8000000000000000 = 0

/-- What a measured launch needs. -/
structure LaunchReady (machine : LaunchMachine) (cpu : CpuState) : Prop where
  locked : featCtrlMsr machine &&& 1 ≠ 0
  senter : featCtrlMsr machine &&& senterBits = senterBits
  vmx : featCtrlMsr machine &&& 2 ≠ 0
  smx : cpu.cr4 &&& cr4Smxe ≠ 0
  leaves : LeavesAvailable machine
  reset : machine.ests &&& 1 = 0
  bios : BiosDataValid machine
  cr0 : cpu.cr0 &&& cr0Pe ≠ 0 ∧ cpu.cr0 &&& cr0Ne ≠ 0 ∧ cpu.cr0 &&& cr0Cd = 0 ∧
    cpu.cr0 &&& cr0Nw = 0
  vm : cpu.eflags &&& eflagsVm = 0
  idle : machine.rdmsr 0x17a &&& 4 = 0
  banks : PreservesMce machine ∨ ∀ i < bankCount machine, BankClear machine i

/-- What the checks look at. -/
structure ChecksPass (machine : LaunchMachine) (cpu : CpuState) : Prop where
  processor : readProcessorInfo machine = true
  smx : cpuidExtFeatInfo machine &&& 0x40 ≠ 0
  vmx : cpuidExtFeatInfo machine &&& 0x20 ≠ 0
  locked : featCtrlMsr machine &&& 1 ≠ 0
  senter : featCtrlMsr machine &&& senterBits ≠ 0
  vmxInSmx : featCtrlMsr machine &&& 2 ≠ 0
  leaves : LeavesAvailable machine
  dmar : machine.dmarFound = true
  reset : machine.ests &&& 1 = 0
  bios : biosDataVerified machine = true
  protectedMode : cpu.cr0 &&& cr0Pe ≠ 0
  idle : machine.rdmsr 0x17a &&& 4 = 0
  parameters : parametersLoop machine (2 ^ 32) 0 defaultParameters ≠ none
  banks : PreservesMce machine ∨ ∀ i < bankCount machine, BankClear machine i

/-- The registers after the checks. -/
def CpuState.prepared (cpu : CpuState) : CpuState where
  cr0 := launchCr0 cpu.cr0
  cr4 := cpu.cr4 ||| cr4Smxe
  eflags := cpu.eflags

end Prerequisites

section Runs

variable {machine : LaunchMachine} {cpu reached : CpuState}

theorem supportsSmx_iff : supportsSmx machine = true ↔
    cpuidExtFeatInfo machine &&& 0x40 ≠ 0 ∧ featCtrlMsr machine &&& 1 ≠ 0 ∧
      featCtrlMsr machine &&& senterBits ≠ 0 := by
  unfold supportsSmx
  split_ifs <;> simp_all

theorem supportsVmx_iff : supportsVmx machine = true ↔
    cpuidExtFeatInfo machine &&& 0x20 ≠ 0 ∧ featCtrlMsr machine &&& 2 ≠ 0 := by
  unfold supportsVmx
  split_ifs <;> simp_all

theorem txtVerifyPlatform_iff : txtVerifyPlatform machine = true ↔
    machine.dmarFound = true ∧ machine.ests &&& 1 = 0 ∧ biosDataVerified machine = true := by
  unfold txtVerifyPlatform
  split_ifs <;> simp_all

theorem supportsTxt_iff : supportsTxt machine cpu = .ok true reached ↔
    readProcessorInfo machine = true ∧ supportsSmx machine = true ∧
      supportsVmx machine = true ∧ LeavesAvailable machine ∧
      reached = { cpu with cr4 := cpu.cr4 ||| cr4Smxe } := by
  unfold supportsTxt
  rw [Prog.ite_pure_eq_ok (by decide), Prog.ite_pure_eq_ok (by decide),
    Prog.ite_pure_eq_ok (by decide), not_not, not_not, not_not, Prog.bind_modify]
  have last : ((if capable machine 0x1 ∧ capable machine 0x10 ∧ capable machine 0x20 ∧
        capable machine 0x40 ∧ capable machine 0x80 ∧ capable machine 0x100 then pure true
      else do
        Prog.modify fun cpu => { cpu with cr4 := cpu.cr4 &&& ~~~cr4Smxe }
        return false : Prog Halt CpuState Bool) { cpu with cr4 := cpu.cr4 ||| cr4Smxe } =
      .ok true reached) ↔
      LeavesAvailable machine ∧ reached = { cpu with cr4 := cpu.cr4 ||| cr4Smxe } := by
    unfold LeavesAvailable
    split
    next leaves => simp [leaves, eq_comm]
    next leaves => simp [leaves]
  rw [last]

theorem leaveVm_run : leaveVm cpu = .ok () cpu := by
  have clear : cpu.eflags &&& ~~~0x30000 &&& eflagsVm = 0 := by
    rw [UInt32.and_assoc]
    change cpu.eflags &&& 0 = 0
    exact UInt32.and_zero
  have read : readEflags cpu = .ok (cpu.eflags &&& ~~~0x30000) cpu := rfl
  rw [leaveVm, Prog.bind_ok read, if_neg (not_not.mpr clear)]
  rfl

theorem getParameters_run {params : GetsecParameters}
    (found : parametersLoop machine (2 ^ 32) 0 defaultParameters = some params) :
    ∃ result, getParameters machine cpu =
        .ok (some result) { cpu with cr4 := cpu.cr4 ||| cr4Smxe } ∧
      result.preserveMce = params.preserveMce := by
  have enabled : (cpu.cr4 ||| cr4Smxe) &&& cr4Smxe ≠ 0 := by
    rw [or_and_self]
    decide
  rw [getParameters, Prog.bind_modify, Prog.bind_get, if_neg enabled, found]
  by_cases empty : params.acmVersions = []
  · exact ⟨{ params with acmVersions := [(0xffffffff, 0)] }, by simp [empty], rfl⟩
  · exact ⟨params, by simp [empty], rfl⟩

theorem getParameters_halts
    (absent : parametersLoop machine (2 ^ 32) 0 defaultParameters = none) :
    getParameters machine cpu = .halt .spin { cpu with cr4 := cpu.cr4 ||| cr4Smxe } := by
  have enabled : (cpu.cr4 ||| cr4Smxe) &&& cr4Smxe ≠ 0 := by
    rw [or_and_self]
    decide
  rw [getParameters, Prog.bind_modify, Prog.bind_get, if_neg enabled, absent]
  rfl

/-- The loop over the banks. -/
theorem banksLoop_iff {preserveMce : Bool} {count first : Nat} :
    banksLoop machine preserveMce count (UInt32.ofNat first) = true ↔
      preserveMce = true ∨ ∀ i, first ≤ i → i < first + count → BankClear machine i := by
  induction count generalizing first with
  | zero => exact ⟨fun _ => .inr fun i lower upper => by omega, fun _ => rfl⟩
  | succ count ih =>
      have next : UInt32.ofNat first + 1 = UInt32.ofNat (first + 1) := (UInt32.ofNat_add _ 1).symm
      rw [banksLoop, next]
      cases preserveMce with
      | true =>
          rw [if_neg (by simp), ih]
          simp
      | false =>
          simp only [Bool.false_eq_true, false_or] at ih ⊢
          by_cases clear : BankClear machine first
          · rw [if_neg (fun both => both.1 clear), ih]
            constructor
            · intro later i lower upper
              rcases Nat.eq_or_lt_of_le lower with rfl | above
              · exact clear
              · exact later i above (by omega)
            · intro all i lower upper
              exact all i (by omega) (by omega)
          · rw [if_pos ⟨clear, by simp⟩]
            simp only [Bool.false_eq_true, false_iff]
            intro all
            exact clear (all first (Nat.le_refl _) (by omega))

theorem txtPrepareCpu_iff : txtPrepareCpu machine cpu = .ok true reached ↔
    cpu.cr0 &&& cr0Pe ≠ 0 ∧ machine.rdmsr 0x17a &&& 4 = 0 ∧
      parametersLoop machine (2 ^ 32) 0 defaultParameters ≠ none ∧
      (PreservesMce machine ∨ ∀ i < bankCount machine, BankClear machine i) ∧
      reached = cpu.prepared := by
  rw [txtPrepareCpu, Prog.bind_get, Prog.ite_pure_eq_ok (by decide), Prog.bind_modify,
    Prog.bind_ok leaveVm_run, Prog.ite_pure_eq_ok (by decide), not_not]
  cases found : parametersLoop machine (2 ^ 32) 0 defaultParameters with
  | none =>
      rw [Prog.bind_halt (getParameters_halts found)]
      simp
  | some params =>
      obtain ⟨result, run, same⟩ := @getParameters_run machine
        { cpu with cr0 := launchCr0 cpu.cr0 } params found
      rw [Prog.bind_ok run]
      have preserved : PreservesMce machine ↔ params.preserveMce = true := by
        rw [PreservesMce, found]
        constructor
        · rintro ⟨other, same, kept⟩
          cases same
          exact kept
        · exact fun kept => ⟨params, rfl, kept⟩
      have banks := @banksLoop_iff machine params.preserveMce (bankCount machine) 0
      simp only [Nat.zero_le, true_imp_iff, Nat.zero_add] at banks
      have loop : (UInt32.ofNat 0 : UInt32) = 0 := rfl
      rw [loop] at banks
      have value : ((pure (banksLoop machine result.preserveMce (bankCount machine) 0) :
            Prog Halt CpuState Bool) cpu.prepared = .ok true reached) ↔
          (PreservesMce machine ∨ ∀ i < bankCount machine, BankClear machine i) ∧
            reached = cpu.prepared := by
        rw [Prog.pure_apply, Outcome.ok.injEq, same, banks, preserved, eq_comm (b := reached)]
      constructor
      · rintro ⟨protectedMode, idle, last⟩
        obtain ⟨clear, state⟩ := value.mp last
        exact ⟨protectedMode, idle, by simp, clear, state⟩
      · rintro ⟨protectedMode, idle, -, clear, state⟩
        exact ⟨protectedMode, idle, value.mpr ⟨clear, state⟩⟩

/-- When the checks pass, and in which state. -/
theorem platformPreChecks_iff : platformPreChecks machine cpu = .ok true reached ↔
    ChecksPass machine cpu ∧ reached = cpu.prepared := by
  have again : ({ cpu with cr4 := cpu.cr4 ||| cr4Smxe } : CpuState).prepared = cpu.prepared := by
    simp only [CpuState.prepared, CpuState.mk.injEq, true_and, and_true]
    rw [UInt32.or_assoc, UInt32.or_self]
  constructor
  · intro run
    obtain ⟨supported, first, supports, run⟩ := Prog.bind_eq_ok.mp run
    obtain ⟨yes, run⟩ := (Prog.ite_pure_eq_ok (by decide)).mp run
    rw [not_not.mp yes] at supports
    obtain ⟨processor, smx, vmx, leaves, rfl⟩ := supportsTxt_iff.mp supports
    obtain ⟨platform, run⟩ := (Prog.ite_pure_eq_ok (by decide)).mp run
    obtain ⟨prepared, second, prepares, run⟩ := Prog.bind_eq_ok.mp run
    obtain ⟨done, run⟩ := (Prog.ite_pure_eq_ok (by decide)).mp run
    rw [not_not.mp done] at prepares
    obtain ⟨protectedMode, idle, parameters, banks, rfl⟩ := txtPrepareCpu_iff.mp prepares
    obtain ⟨smxFeature, locked, senter⟩ := supportsSmx_iff.mp smx
    obtain ⟨vmxFeature, vmxInSmx⟩ := supportsVmx_iff.mp vmx
    obtain ⟨dmar, reset, bios⟩ := txtVerifyPlatform_iff.mp (not_not.mp platform)
    cases run
    exact ⟨⟨processor, smxFeature, vmxFeature, locked, senter, vmxInSmx, leaves, dmar, reset, bios,
      protectedMode, idle, parameters, banks⟩, again⟩
  · rintro ⟨pass, rfl⟩
    have supports : supportsTxt machine cpu = .ok true { cpu with cr4 := cpu.cr4 ||| cr4Smxe } :=
      supportsTxt_iff.mpr ⟨pass.processor,
        supportsSmx_iff.mpr ⟨pass.smx, pass.locked, pass.senter⟩,
        supportsVmx_iff.mpr ⟨pass.vmx, pass.vmxInSmx⟩, pass.leaves, rfl⟩
    have platform : txtVerifyPlatform machine = true :=
      txtVerifyPlatform_iff.mpr ⟨pass.dmar, pass.reset, pass.bios⟩
    have prepares : txtPrepareCpu machine { cpu with cr4 := cpu.cr4 ||| cr4Smxe } =
        .ok true cpu.prepared :=
      txtPrepareCpu_iff.mpr ⟨pass.protectedMode, pass.idle, pass.parameters, pass.banks,
        again.symm⟩
    rw [platformPreChecks, Prog.bind_ok supports, if_neg (by simp), if_neg (by simp [platform]),
      Prog.bind_ok prepares]
    rfl

theorem biosDataValid_of_verified (verified : biosDataVerified machine = true) :
    BiosDataValid machine := by
  rw [biosDataVerified, decide_eq_true_eq] at verified
  obtain ⟨final, run⟩ := Outcome.eq_ok_of_value? verified
  obtain ⟨present, run⟩ := passes_of_ok run
  rw [getBiosDataSize, Prog.bind_ok (heapQuad_run _ _)] at run
  obtain ⟨some, run⟩ := passes_of_ok run
  obtain ⟨fits, run⟩ := passes_of_ok run
  rw [Prog.bind_ok (heapWord_run _ _)] at run
  obtain ⟨version, run⟩ := passes_of_ok run
  rw [Prog.bind_ok (heapWord_run _ _)] at run
  obtain ⟨least, run⟩ := passes_of_ok run
  obtain ⟨most, run⟩ := passes_of_ok run
  rw [not_or, not_or] at present
  refine ⟨⟨present.1, present.2.2⟩, ⟨some, UInt64.not_lt.mp fits⟩, UInt32.not_lt.mp version,
    ⟨UInt32.not_lt.mp least, UInt32.not_lt.mp most⟩, fun walked => ?_⟩
  rw [if_pos ⟨walked.1, walked.2⟩] at run
  exact ⟨_, final, rfl, run⟩

/-- The checks let a machine pass only if it is ready, exactly if they refuse it for another
reason or all bits for SENTER are set and the processor is not in virtual 8086 mode. -/
theorem platformPreChecks_sound_iff (machine : LaunchMachine) (cpu : CpuState) :
    (∀ reached, platformPreChecks machine cpu = .ok true reached → LaunchReady machine reached) ↔
      ¬ ChecksPass machine cpu ∨
        featCtrlMsr machine &&& senterBits = senterBits ∧ cpu.eflags &&& eflagsVm = 0 := by
  constructor
  · intro sound
    by_cases pass : ChecksPass machine cpu
    · have ready := sound cpu.prepared (platformPreChecks_iff.mpr ⟨pass, rfl⟩)
      exact .inr ⟨ready.senter, ready.vm⟩
    · exact .inl pass
  · rintro condition reached run
    obtain ⟨pass, rfl⟩ := platformPreChecks_iff.mp run
    rcases condition with refused | ⟨senter, vm⟩
    · exact absurd pass refused
    obtain ⟨pe, ne, cd, nw⟩ := launchCr0_spec cpu.cr0
    refine ⟨pass.locked, senter, pass.vmxInSmx, ?_, pass.leaves, pass.reset,
      biosDataValid_of_verified pass.bios, ⟨pe ▸ pass.protectedMode, ne, cd, nw⟩, vm, pass.idle,
      pass.banks⟩
    rw [CpuState.prepared, or_and_self]
    decide

/-- A machine on which the firmware has enabled SENTER without its parameters. -/
def lockedMachine : LaunchMachine where
  idToggles := true
  cpuid := fun leaf =>
    if leaf = 0 then ⟨0x756e6547, 0x6c65746e, 0x49656e69⟩ else ⟨0, 0x60, 0⟩
  rdmsr := fun msr => if msr = 0x3a then 0x8003 else 0
  getsecCapabilities := 0x1f1
  getsecParameters := fun _ => ⟨0, 0, 0⟩
  dmarFound := true
  ests := 0
  heapBase := 0x100000
  heapSize := 0x1000
  mem := memoryFrom 0x100000 (biosBytes 44)

theorem lockedMachine_passes :
    ∃ reached, platformPreChecks lockedMachine ⟨0x11, 0, 2⟩ = .ok true reached ∧
      ¬ LaunchReady lockedMachine reached := by
  have run : (platformPreChecks lockedMachine ⟨0x11, 0, 2⟩).value? = some true := by
    decide +kernel
  obtain ⟨reached, run⟩ := Outcome.eq_ok_of_value? run
  exact ⟨reached, run, fun ready => absurd ready.senter (by decide)⟩

end Runs

end Sable
