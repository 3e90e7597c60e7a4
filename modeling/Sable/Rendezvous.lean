import Sable.Heap
import Sable.Mtrrs
import Sable.Occupancy

/-!
# The processors that join the launched environment

The first processor wakes the others, waits for them, hands over to the kernel and is
called back to shut the platform down.  The others restore their settings and wait in a
loop or in a guest until they are started.  They share two counters, which they change by
locked instructions, and the words by which the kernel wakes them.

A processor that is turned away is not followed any further.  From `txt_cpu_wakeup` it falls
into `_prot_to_real`, and from `shutdown` into the shutdown of the first processor.  The words
for waking are cleared in one step.
-/

namespace Sable

def apWfsTimeout : UInt32 := 0x10000000
def apGuestExitTimeout : UInt32 := 0x1000000
def miscEnableMonitorFsm : UInt64 := 0x40000

/-- How a processor stops waiting: the guest is not entered, the processor is started at a
vector, or it leaves the guest at the request of the first processor. -/
inductive ApExit where
  | failed
  | started (sipiVec : UInt32)
  | halted
deriving DecidableEq

/-- Where a processor is in `txt_cpu_wakeup`, `ap_wait`, `handle_init_sipi_sipi` and
`shutdown`. -/
inductive ApPhase where
  | asleep
  /-- It was turned away before it was counted. -/
  | refused
  /-- It has restored its settings. -/
  | restored
  /-- It has come back for a shutdown and has been counted, but has not cleared the trigger. -/
  | returning
  /-- `ap_wfs_count` counts it, `num_in_wfs` does not yet. -/
  | counted
  /-- It was counted and then turned away. -/
  | stranded
  | waiting
  /-- It has seen its number in the trigger. -/
  | triggered
  /-- `num_in_wfs` still counts it. -/
  | released (exit : ApExit)
  | gone (exit : ApExit)
deriving DecidableEq

structure ApRegisters where
  apicBase : UInt64
  msrs : MtrrMsrs
  miscEnable : UInt64
  smisEnabled : Bool

/-- What the launch has left in the heap and in the tables, and the numbers of the
processors. -/
structure RlpPlatform (ι : Type) where
  /-- The number that the entry code compares with the number of its stacks. -/
  initialApicId : ι → UInt32
  apicId : ι → UInt32
  useMwait : Bool
  madtApicBase : UInt32
  savedMtrrState : MtrrState
  savedMiscEnable : UInt64
  numLogicalProcs : UInt32
  senterDone : Bool

/-- The steps of the first processor in `intel_post_launch` and `shutdown`. -/
inductive BspPhase where
  | launching
  | waking
  | polling
  /-- The shared page is cleared byte by byte; these bytes of `num_in_wfs` have been. -/
  | scrubbing (bytes : Nat)
  | counting
  | publishing (count : UInt32)
  | kernel
  | barrier
  | comparing (numInWfs : UInt32)
  | passed
  | draining
  | closing
  /-- The environment is torn down, after a reset if processors are left. -/
  | leaving (reset : Bool)
  | off
deriving DecidableEq

structure Rendezvous (ι : Type) where
  phase : ι → ApPhase
  regs : ι → ApRegisters
  apWfsCount : UInt32
  numInWfs : UInt32
  apWakeTrigger : UInt32
  apWakeAddr : UInt64
  apsExitGuest : Bool
  bsp : BspPhase
  wakeTimeout : UInt32
  exitTimeout : UInt32

/-- `ap_wakeup_count` -/
def apWakeupCount (numLogicalProcs : UInt32) : UInt32 :=
  if nrCpus ≤ numLogicalProcs - 1 then nrCpus - 1 else numLogicalProcs - 1

section Processors

variable {ι : Type} (platform : RlpPlatform ι)

/-- The settings that `txt_cpu_wakeup` restores, unless there is no table with the base of
the APIC. -/
def restoreSettings (regs : ApRegisters) : Option ApRegisters :=
  let madtApicbase := platform.madtApicBase.toUInt64
  if madtApicbase = 0 then none
  else some {
    apicBase :=
      if madtApicbase ≠ regs.apicBase &&& ~~~0xfff then
        (regs.apicBase &&& 0xfff) ||| madtApicbase
      else regs.apicBase
    msrs := restoreMtrrs (some platform.savedMtrrState) none regs.msrs
    miscEnable := platform.savedMiscEnable
    smisEnabled := true }

/-- The entry code has sixteen stacks and compares signed numbers. -/
def hasStack (initialApicId : UInt32) : Bool :=
  initialApicId < 16 || 0x80000000 ≤ initialApicId

/-- What a processor does next; `count` and what follows are the accesses to shared words. -/
inductive ApAction where
  | join
  | count
  | clearTrigger
  /-- Enter the loop, or the guest if the virtual machine can be set up. -/
  | wait (vmxon : Bool)
  | notice
  | release (exit : ApExit)
  | leave
  /-- The kernel calls `shutdown` on this processor with `TB_SHUTDOWN_WFS`. -/
  | comeBack
deriving DecidableEq

variable [DecidableEq ι]

def Rendezvous.move (s : Rendezvous ι) (i : ι) (p : ApPhase) : Rendezvous ι :=
  { s with phase := Function.update s.phase i p }

def Rendezvous.setRegs (s : Rendezvous ι) (i : ι) (regs : ApRegisters) : Rendezvous ι :=
  { s with regs := Function.update s.regs i regs }

/-- `txt_cpu_wakeup` up to the first access to a counter. -/
def joinLaunch (s : Rendezvous ι) (i : ι) : Rendezvous ι :=
  if !hasStack (platform.initialApicId i) ∨ nrCpus ≤ platform.apicId i then s.move i .refused
  else
    match restoreSettings platform (s.regs i) with
    | none => s.move i .refused
    | some regs => (s.setRegs i regs).move i .restored

/-- The start of `ap_wait`, or of `handle_init_sipi_sipi`. -/
def startWaiting (vmxon : Bool) (s : Rendezvous ι) (i : ι) : Rendezvous ι :=
  if nrCpus ≤ platform.apicId i then s.move i .stranded
  else if platform.useMwait then
    { s with
      regs := Function.update s.regs i
        { s.regs i with miscEnable := (s.regs i).miscEnable ||| miscEnableMonitorFsm }
      numInWfs := s.numInWfs + 1 }.move i .waiting
  else if vmxon then { s with numInWfs := s.numInWfs + 1 }.move i .waiting
  else s.move i .stranded

/-- The ways out of the guest.  The vector of a start is the number of a page below 1 MB. -/
def guestExits (s : Rendezvous ι) : ApExit → Bool
  | .failed => true
  | .started sipiVec => sipiVec &&& 0xfff00fff = 0
  | .halted => s.apsExitGuest

/-- The step of a processor, if it is the next one. -/
def apStep (s : Rendezvous ι) (i : ι) : ApAction → Option (Rendezvous ι)
  | .join =>
      if s.phase i = .asleep ∧ s.bsp ≠ .launching ∧ s.bsp ≠ .waking then
        some (joinLaunch platform s i)
      else none
  | .count =>
      if s.phase i = .restored then
        some ({ s with apWfsCount := s.apWfsCount + 1 }.move i .counted)
      else none
  | .clearTrigger =>
      if s.phase i = .returning then some ({ s with apWakeTrigger := 0 }.move i .counted)
      else none
  | .wait vmxon =>
      if s.phase i = .counted then some (startWaiting platform vmxon s i) else none
  | .notice =>
      if s.phase i = .waiting ∧ platform.useMwait ∧ s.apWakeTrigger = platform.apicId i then
        some (s.move i .triggered)
      else none
  | .release exit =>
      if (s.phase i = .triggered ∧ exit = .started s.apWakeAddr.toUInt32) ∨
          (s.phase i = .waiting ∧ !platform.useMwait ∧ guestExits s exit) then
        some ({ s with apWfsCount := s.apWfsCount - 1 }.move i (.released exit))
      else none
  | .leave =>
      match s.phase i with
      | .released exit => some ({ s with numInWfs := s.numInWfs - 1 }.move i (.gone exit))
      | _ => none
  | .comeBack =>
      match s.phase i with
      | .gone (.started _) =>
          some ({ s with apWfsCount := s.apWfsCount + 1 }.move i .returning)
      | _ => none

/-- The next step of the first processor.  `atomic_set` sets the bits of its argument, so
that it does not change a counter when the argument is zero. -/
def bspStep (s : Rendezvous ι) : Option (Rendezvous ι) :=
  match s.bsp with
  | .launching => some { s with numInWfs := 0, bsp := .waking }
  | .waking =>
      some { s with
        apWfsCount := s.apWfsCount ||| 0
        wakeTimeout := apWfsTimeout
        bsp := .polling }
  | .polling =>
      let timeout := s.wakeTimeout - 1
      let again := s.apWfsCount < apWakeupCount platform.numLogicalProcs && 0 < timeout
      some { s with wakeTimeout := timeout, bsp := if again then .polling else .scrubbing 0 }
  | .scrubbing bytes =>
      if bytes < 4 then
        some { s with
          numInWfs := s.numInWfs &&& ~~~(0xff <<< UInt32.ofNat (8 * bytes))
          bsp := .scrubbing (bytes + 1) }
      else some { s with apWakeTrigger := 0, apWakeAddr := 0, bsp := .counting }
  | .counting => some { s with bsp := .publishing s.apWfsCount }
  | .publishing count => some { s with numInWfs := count, bsp := .kernel }
  | .kernel => some { s with bsp := .barrier }
  | .barrier => some { s with bsp := .comparing s.numInWfs }
  | .comparing numInWfs =>
      some { s with bsp := if numInWfs < s.apWfsCount then .barrier else .passed }
  | .passed =>
      if !platform.senterDone then some { s with bsp := .off }
      else if platform.useMwait then
        some { s with apWfsCount := s.apWfsCount ||| 0, bsp := .closing }
      else some { s with
        apsExitGuest := true
        exitTimeout := apGuestExitTimeout
        bsp := .draining }
  | .draining =>
      let timeout := s.exitTimeout - 1
      if 0 < s.apWfsCount && 0 < timeout then some { s with exitTimeout := timeout }
      else some { s with exitTimeout := timeout, bsp := .closing }
  | .closing => some { s with bsp := .leaving (!platform.useMwait && 0 < s.apWfsCount) }
  | .leaving _ => some { s with bsp := .off }
  | .off => none

/-- A step of the system.  The kernel writes the words that wake a processor. -/
inductive RendezvousEvent (ι : Type) where
  | bsp
  | ap (i : ι) (action : ApAction)
  | wakeUp (trigger : UInt32) (addr : UInt64)

def rendezvousStep (s : Rendezvous ι) : RendezvousEvent ι → Option (Rendezvous ι)
  | .bsp => bspStep platform s
  | .ap i action => apStep platform s i action
  | .wakeUp trigger addr =>
      if s.bsp = .kernel then some { s with apWakeTrigger := trigger, apWakeAddr := addr }
      else none

/-- Some event leads from one state to the other. -/
def Interleaved (before after : Rendezvous ι) : Prop :=
  ∃ event, rendezvousStep platform before event = some after

/-- The state at the start of `intel_post_launch`. -/
def Rendezvous.initial (regs : ι → ApRegisters) (numInWfs trigger : UInt32) (addr : UInt64) :
    Rendezvous ι where
  phase := fun _ => .asleep
  regs := regs
  apWfsCount := 0
  numInWfs := numInWfs
  apWakeTrigger := trigger
  apWakeAddr := addr
  apsExitGuest := false
  bsp := .launching
  wakeTimeout := 0
  exitTimeout := 0

end Processors

section Zones

/-- `ap_wfs_count` counts the processor. -/
def ApPhase.isCounted : ApPhase → Bool
  | .returning | .counted | .stranded | .waiting | .triggered => true
  | _ => false

/-- `num_in_wfs` counts the processor. -/
def ApPhase.isInWfs : ApPhase → Bool
  | .waiting | .triggered | .released _ => true
  | _ => false

/-- The processor has been counted and is going to wait. -/
def ApPhase.isOnWay : ApPhase → Bool
  | .returning | .counted => true
  | _ => false

/-- The processor is in the loop or in the guest. -/
def ApPhase.isIdle : ApPhase → Bool
  | .waiting | .triggered => true
  | _ => false

def ApPhase.isStranded : ApPhase → Bool
  | .stranded => true
  | _ => false

def ApPhase.isReleased : ApPhase → Bool
  | .released _ => true
  | _ => false

/-- The processor has restored its settings. -/
def ApPhase.hasJoined : ApPhase → Bool
  | .asleep | .refused => false
  | _ => true

/-- The first processor has waited for the others. -/
def BspPhase.hasPolled : BspPhase → Bool
  | .launching | .waking | .polling => false
  | _ => true

/-- `num_in_wfs` has been published. -/
def BspPhase.hasPublished : BspPhase → Bool
  | .launching | .waking | .polling | .scrubbing _ | .counting | .publishing _ => false
  | _ => true

end Zones

end Sable
