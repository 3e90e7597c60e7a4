import Sable.BootFrames

/-!
# What precedes the launch of the kernel

In a run of `post_launch` whose TPM is identified, the kernel and the modules
are started only after locality 2 was accessed, the modules were measured, and
the user confirmed the passphrase.  `post_launch` skips all of these if
`tis_init` does not know the identification it reads.
-/

namespace Sable

open ByteMemory BigEndian HaltingProgram

/-- The event hands over to the kernel or to a module. -/
def Event.Launches : Event → Prop
  | .launchKernel => True
  | .startModule => True
  | _ => False

/-- The steps that a launch has to wait for have succeeded. -/
structure Cleared (events : List Event) : Prop where
  accessed : .accessed tisLocality2 .none ∈ events
  hashed : .hashed .none ∈ events
  booted : ∃ early late, events = early ++ .confirmed :: late ∧ .booted .none ∈ late

/-- Every launch comes after the steps that clear it. -/
def LaunchGated (events : List Event) : Prop :=
  ∀ before event after, events = before ++ event :: after → event.Launches → Cleared before

section Events

variable {events more : List Event}

theorem Cleared.append (cleared : Cleared events) (more : List Event) :
    Cleared (events ++ more) := by
  obtain ⟨early, late, split, member⟩ := cleared.booted
  refine ⟨List.mem_append_left _ cleared.accessed, List.mem_append_left _ cleared.hashed,
    early, late ++ more, ?_, List.mem_append_left _ member⟩
  rw [split, List.append_assoc, List.cons_append]

theorem launchGated_of_none (none : ∀ event ∈ events, ¬ event.Launches) :
    LaunchGated events := by
  intro before event after split launches
  refine (none event ?_ launches).elim
  rw [split]
  exact List.mem_append_right _ List.mem_cons_self

/-- Whatever follows the steps that clear a launch. -/
theorem Cleared.launchGated (cleared : Cleared events)
    (none : ∀ event ∈ events, ¬ event.Launches) : LaunchGated (events ++ more) := by
  intro before event after split launches
  rcases List.append_eq_append_iff.mp split with ⟨middle, rest, -⟩ | ⟨middle, rest, tail⟩
  · rw [rest]
    exact cleared.append middle
  · cases middle with
    | nil =>
        rw [List.append_nil] at rest
        rw [← rest]
        exact cleared
    | cons first middle =>
        rw [List.cons_append, List.cons.injEq] at tail
        refine (none event ?_ launches).elim
        rw [rest, tail.1]
        exact List.mem_append_right _ List.mem_cons_self

end Events

section Frames

variable {σ : Type} {device : TisDevice σ} {allowed : Event → Prop}

theorem onPlatform_respects {α : Type} (program : Prog Halt (σ × Mem) α) :
    Respects False False allowed (onPlatform program : Boot σ α) := by
  intro m
  rw [onPlatform]
  cases program (m.world, m.mem) with
  | ok value reached => exact Machine.Evolves.of_eq rfl False.elim False.elim
  | halt reason reached => exact Machine.Evolves.of_eq rfl False.elim False.elim

theorem initHeapArray_respects : Respects False False allowed (initHeapArray : Boot σ Unit) := by
  intro m
  rw [initHeapArray]
  cases initHeap m.heap 8192 m.mem with
  | ok value reached => exact Machine.Evolves.of_eq rfl False.elim False.elim
  | halt reason reached => exact Machine.Evolves.of_eq rfl False.elim False.elim

theorem cmdlineNumber_respects (cmdline : UInt32) (argument : String) :
    Respects False False allowed (cmdlineNumber cmdline argument : Boot σ UInt32) := by
  refine Respects.get.bind fun m => ?_
  split
  · exact Respects.halt _
  · split
    · exact Respects.halt _
    · exact Respects.ret _

theorem postLaunchStart_respects (platform : Platform σ) (mbi : UInt32) :
    Respects False False allowed (postLaunchStart platform mbi) := by
  refine initHeapArray_respects.bind fun _ => (onPlatform_respects _).bind fun _ => ?_
  refine (onPlatform_respects _).bind fun _ => Respects.get.bind fun m => ?_
  refine (cmdlineNumber_respects _ _).bind fun _ => (cmdlineNumber_respects _ _).bind fun _ => ?_
  exact Respects.ret _

theorem tisAccessRun_respects (locality : UInt32) (force : Bool) :
    Respects False False allowed (tisAccessRun device locality force) := by
  have moved : Respects False False allowed
      (Prog.modify fun m => { m with tisLocality := tisBase + locality } : Boot σ Unit) :=
    Respects.modify (fun _ => rfl) False.elim False.elim
  unfold tisAccessRun
  repeat' first
    | with_reducible intro _
    | with_reducible apply Respects.bind
    | with_reducible apply Respects.ite
  all_goals first | exact moved | grind

theorem tisAccess_respects (accessed : ∀ locality exception,
    allowed (.accessed locality exception)) (locality : UInt32) (force : Bool) :
    Respects False False allowed (tisAccess device locality force) :=
  (tisAccessRun_respects _ _).bind fun _ =>
    (emit_respects (accessed _ _)).bind fun _ => Respects.ret _

end Frames

section Probe

variable {σ : Type} {device : TisDevice σ} {allowed : Event → Prop}

/-- The identification that `tis_init` reads, after its workaround for devices with the
identification bug. -/
def probeId (device : TisDevice σ) : Boot σ UInt32 := do
  let bug ← didVidBug device
  if bug then
    outInfo "Fix DID/VID bug..."
    let _ ← tisAccess device tisLocality0 false
  readReg device.readDidVid

theorem tisInit_eq (device : TisDevice σ) :
    tisInit device = probeId device >>= identifyVendor device := by
  rw [tisInit, probeId, bind_assoc]
  congr 1
  funext bug
  cases bug with
  | false => rfl
  | true =>
      simp only [if_true, bind_assoc]

theorem probeId_respects (output : ∀ bytes, allowed (.output bytes))
    (accessed : ∀ locality exception, allowed (.accessed locality exception)) :
    Respects False False allowed (probeId device) := by
  have access := fun locality force =>
    @tisAccess_respects σ device allowed accessed locality force
  have info : ∀ message, Respects False False allowed (outInfo message : Boot σ Unit) :=
    fun message => emit_respects (output _)
  unfold probeId didVidBug
  repeat' first
    | with_reducible intro _
    | with_reducible apply Respects.bind
    | with_reducible apply Respects.ite
  all_goals first | exact access _ _ | exact info _ | grind

theorem vendorOf_ne_noTpm {didVid : UInt32} {vendor : TisTpmVendor} {message : String}
    (known : vendorOf didVid = some (vendor, message)) : vendor ≠ .noTpm := by
  rw [vendorOf] at known
  split_ifs at known <;> cases known <;> decide

end Probe

section Gate

variable {σ : Type} {start : List Event}

/-- The event is no launch. -/
def Event.Waits (event : Event) : Prop :=
  ¬ event.Launches

theorem waits_output (bytes : List UInt8) : Event.Waits (.output bytes) :=
  fun launches => launches

theorem waits_commandEvents : CommandEvents Event.Waits :=
  ⟨⟨fun _ _ _ launches => launches, fun _ _ launches => launches⟩, fun _ launches => launches,
    fun _ _ launches => launches, fun _ _ launches => launches⟩

/-- No launch has happened, and the given events have. -/
def Waiting (steps : List Event) (events : List Event) : Prop :=
  (∀ event ∈ events, event.Waits) ∧ ∀ step ∈ steps, step ∈ events

variable {steps : List Event}

theorem Waiting.append {events more : List Event} (waiting : Waiting steps events)
    (waits : ∀ event ∈ more, event.Waits) : Waiting steps (events ++ more) := by
  constructor
  · intro event member
    rcases List.mem_append.mp member with early | late
    · exact waiting.1 event early
    · exact waits event late
  · intro step member
    exact List.mem_append_left _ (waiting.2 step member)

theorem Waiting.push {events : List Event} (waiting : Waiting steps events) {step : Event}
    (waits : step.Waits) : Waiting (step :: steps) (events ++ [step]) := by
  refine ⟨(waiting.append fun event member => ?_).1, fun event member => ?_⟩
  · rw [List.mem_singleton] at member
    rw [member]
    exact waits
  · rcases List.mem_cons.mp member with rfl | old
    · exact List.mem_append_right _ List.mem_cons_self
    · exact List.mem_append_left _ (waiting.2 event old)

/-- Sequencing after a program that launches nothing. -/
theorem waiting_bind {α β : Type} {first : Boot σ α} {next : α → Boot σ β}
    {post : β → Machine σ → Prop} {stop : Machine σ → Prop}
    (respects : Respects False False Event.Waits first)
    (halted : ∀ m, Recorded start (Waiting steps) m → stop m)
    (second : ∀ value, Prog.Ends (Recorded start (Waiting steps)) (next value) post stop) :
    Prog.Ends (Recorded start (Waiting steps)) (first >>= next) post stop := by
  refine Prog.Ends.bind ?_ second
  exact Prog.Ends.mono (respects.recorded fun _ _ => Waiting.append) (fun _ holds => holds)
    (fun _ _ holds => holds) halted

theorem confirmPassphrase_confirms (passphrase : UInt32) :
    Prog.Ends (Recorded start (Waiting steps)) (confirmPassphrase passphrase : Boot σ Unit)
      (fun _ => Recorded start (Waiting (.confirmed :: steps)))
      (Recorded start (Waiting steps)) := by
  have halted : ∀ m : Machine σ, Recorded start (Waiting steps) m →
      Recorded start (Waiting steps) m := fun _ holds => holds
  refine waiting_bind (outString_respects waits_output _) halted fun _ => ?_
  refine waiting_bind (loadString_respects _) halted fun _ => ?_
  refine waiting_bind (outString_respects waits_output _) halted fun _ => ?_
  refine waiting_bind (outString_respects waits_output _) halted fun _ => ?_
  refine waiting_bind (allocHeap_respects _) halted fun _ => ?_
  refine waiting_bind (getStringAt_respects waits_output _ _ _) halted fun _ => ?_
  refine waiting_bind Respects.get halted fun m => ?_
  refine Prog.Ends.ite (fun _ m holds => holds) fun _ => ?_
  exact emit_recorded fun events waiting => waiting.push fun launches => launches

variable (device : TisDevice σ)

/-- `trusted_boot` returns without an exception only after the confirmation. -/
theorem trustedBoot_confirms (index size : UInt32) :
    Prog.Ends (Recorded start (Waiting steps)) (trustedBoot device index size)
      (fun ret => Recorded start fun events => Waiting steps events ∧
        (ret.exception = .none → .confirmed ∈ events))
      (Recorded start (Waiting steps)) := by
  have halted : ∀ m : Machine σ, Recorded start (Waiting steps) m →
      Recorded start (Waiting steps) m := fun _ holds => holds
  have thrown : ∀ exception ≠ Error.none, Prog.Ends (Recorded start (Waiting steps))
      (pure (.error exception ()) : Boot σ (Result Unit))
      (fun ret => Recorded start fun events => Waiting steps events ∧
        (ret.exception = .none → .confirmed ∈ events))
      (Recorded start (Waiting steps)) := by
    intro exception failed
    refine Prog.Ends.ret ?_
    rintro m ⟨events, log, waiting⟩
    exact ⟨events, log, waiting, fun none => (failed none).elim⟩
  refine waiting_bind (readPassphrase_respects waits_commandEvents _ _) halted fun _ => ?_
  refine Prog.Ends.ite (thrown _) fun _ => ?_
  refine waiting_bind (outString_respects waits_output _) halted fun _ => ?_
  refine waiting_bind (getAuthdata_respects waits_output) halted fun _ => ?_
  refine Prog.Ends.ite (thrown _) fun _ => ?_
  refine waiting_bind (outString_respects waits_output _) halted fun _ => ?_
  refine waiting_bind (getAuthdata_respects waits_output) halted fun _ => ?_
  refine Prog.Ends.ite (thrown _) fun _ => ?_
  refine waiting_bind (unsealPassphrase_respects waits_commandEvents _ _ _) halted fun _ => ?_
  refine Prog.Ends.ite (thrown _) fun _ => ?_
  refine (confirmPassphrase_confirms _).bind fun _ => Prog.Ends.ret ?_
  rintro m ⟨events, log, waits, members⟩
  refine ⟨events, log, ⟨waits, fun step member => ?_⟩, fun _ => ?_⟩
  · exact members step (List.mem_cons_of_mem _ member)
  · exact members .confirmed List.mem_cons_self

/-- The kernel may be launched, or the branch has failed. -/
def GateReached (exception : Error) (events : List Event) : Prop :=
  (∀ event ∈ events, event.Waits) ∧ (exception = .none → Cleared events)

theorem waiting_forget {m : Machine σ} (recorded : Recorded start (Waiting steps) m) :
    Recorded start (Waiting []) m := by
  obtain ⟨events, log, waiting⟩ := recorded
  exact ⟨events, log, waiting.1, by simp⟩

theorem waiting_throw {stop : Machine σ → Prop} (failed : Result Unit)
    (thrown : failed.exception ≠ .none) :
    Prog.Ends (Recorded start (Waiting steps)) (pure failed : Boot σ (Result Unit))
      (fun ret => Recorded start (GateReached ret.exception)) stop := by
  refine Prog.Ends.ret ?_
  rintro m ⟨events, log, waiting⟩
  exact ⟨events, log, waiting.1, fun none => (thrown none).elim⟩

theorem tisAccess_accessed (locality : UInt32) (force : Bool) :
    Prog.Ends (Recorded start (Waiting steps)) (tisAccess device locality force)
      (fun ret => Recorded start (Waiting (.accessed locality ret.exception :: steps)))
      (Recorded start (Waiting [])) := by
  refine waiting_bind (tisAccessRun_respects _ _) (fun _ => waiting_forget) fun ret => ?_
  refine Prog.Ends.bind (emit_recorded fun events waiting => waiting.push
    fun launches => launches) fun _ => ?_
  exact Prog.Ends.ret fun m holds => holds

variable (platform : Platform σ)

/-- The steps before `trusted_boot` have succeeded. -/
def measuredSteps : List Event :=
  [.hashed .none, .accessed tisLocality2 .none]

theorem trustedBranch_gates (nvIndex nvSize : UInt32) :
    Prog.Ends (Recorded start (Waiting measuredSteps))
      (do
        let trustedBootRet ← trustedBoot platform.device nvIndex nvSize
        emit (.booted trustedBootRet.exception)
        if trustedBootRet.exception ≠ .none then return trustedBootRet
        tisDeactivateAll platform.device)
      (fun ret => Recorded start (GateReached ret.exception))
      (Recorded start (Waiting [])) := by
  have boots := @trustedBoot_confirms σ start measuredSteps platform.device nvIndex nvSize
  refine Prog.Ends.bind (Prog.Ends.mono boots (fun _ holds => holds) (fun _ _ holds => holds)
    fun _ => waiting_forget) fun ret => ?_
  have booted : Prog.Ends
      (Recorded start fun events => Waiting measuredSteps events ∧
        (ret.exception = .none → .confirmed ∈ events))
      (emit (.booted ret.exception) : Boot σ Unit)
      (fun _ => Recorded start (GateReached ret.exception)) (Recorded start (Waiting [])) := by
    refine emit_recorded fun events => ?_
    rintro ⟨⟨waits, members⟩, confirmed⟩
    have step : Event.Waits (.booted ret.exception) := fun launches => launches
    have pushed := Waiting.push ⟨waits, members⟩ step
    refine ⟨pushed.1, fun success => ?_⟩
    obtain ⟨early, late, split⟩ := List.append_of_mem (confirmed success)
    refine ⟨pushed.2 _ (by simp [measuredSteps]), pushed.2 _ (by simp [measuredSteps]), early,
      late ++ [.booted .none], ?_, by simp⟩
    rw [split, success, List.append_assoc, List.cons_append]
  refine booted.bind fun _ => Prog.Ends.ite (fun _ => Prog.Ends.ret fun m holds => holds) ?_
  intro success
  have cleared : Prog.Ends (Recorded start (GateReached ret.exception))
      (tisDeactivateAll platform.device) (fun _ => Recorded start (GateReached .none))
      (Recorded start (GateReached .none)) := by
    rw [Decidable.of_not_not success]
    have respects : Respects False False Event.Waits (tisDeactivateAll platform.device) :=
      tisDeactivateAll_respects
    refine respects.recorded fun events more gate waits => ?_
    refine ⟨fun event member => ?_, fun _ => (gate.2 rfl).append more⟩
    rcases List.mem_append.mp member with early | late
    · exact gate.1 event early
    · exact waits event late
  refine Prog.Ends.mono cleared (fun _ holds => holds) ?_ ?_
  · rintro value m ⟨events, log, waits, gate⟩
    exact ⟨events, log, waits, fun _ => gate rfl⟩
  · rintro m ⟨events, log, waits, -⟩
    exact ⟨events, log, waits, by simp⟩

theorem measuredBoot_gates (mbi nvIndex nvSize : UInt32) :
    Prog.Ends (Recorded start (Waiting [])) (measuredBoot platform mbi nvIndex nvSize)
      (fun ret => Recorded start (GateReached ret.exception))
      (Recorded start (Waiting [])) := by
  have output := waits_output
  have commands := waits_commandEvents
  refine (tisAccess_accessed platform.device tisLocality2 false).bind fun access => ?_
  refine Prog.Ends.ite (waiting_throw access) fun accessed => ?_
  rw [Decidable.of_not_not accessed]
  refine waiting_bind (mbiCalcHash_respects commands (fun _ _ launches => launches) output _)
    (fun _ => waiting_forget) fun hash => ?_
  refine Prog.Ends.bind (emit_recorded fun events waiting => waiting.push
    fun launches => launches) fun _ => ?_
  refine Prog.Ends.ite (waiting_throw hash) fun hashed => ?_
  rw [Decidable.of_not_not hashed]
  refine waiting_bind ((tpmPCRRead_isCommand 18).respects commands) (fun _ => waiting_forget)
    fun pcr18 => Prog.Ends.ite (waiting_throw (.error pcr18.exception ())) fun _ => ?_
  refine waiting_bind (emit_respects (output _)) (fun _ => waiting_forget) fun _ => ?_
  refine waiting_bind ((tpmPCRRead_isCommand 19).respects commands) (fun _ => waiting_forget)
    fun pcr19 => Prog.Ends.ite (waiting_throw (.error pcr19.exception ())) fun _ => ?_
  refine waiting_bind (emit_respects (output _)) (fun _ => waiting_forget) fun _ => ?_
  refine waiting_bind (outString_respects output _) (fun _ => waiting_forget) fun _ => ?_
  refine waiting_bind (getString_respects output _ _ _) (fun _ => waiting_forget) fun line => ?_
  refine Prog.Ends.ite (fun _ => ?_) fun _ => trustedBranch_gates platform nvIndex nvSize
  refine waiting_bind (configure_respects commands output _ _) (fun _ => waiting_forget)
    fun ret => Prog.Ends.ite (waiting_throw ret) fun _ => ?_
  refine waiting_bind tisDeactivateAll_respects (fun _ => waiting_forget)
    fun ret => Prog.Ends.ite (waiting_throw ret) fun _ => ?_
  refine waiting_bind (outString_respects output _) (fun _ => waiting_forget) fun _ => ?_
  exact fun m holds => waiting_forget holds

theorem launch_respects (mbi : UInt32) :
    Respects False False (fun _ => True) (launch platform mbi) := by
  refine (emit_respects trivial).bind fun _ => (emit_respects trivial).bind fun _ => ?_
  refine (onPlatform_respects _).bind fun _ => (emit_respects trivial).bind fun _ => ?_
  exact onPlatform_respects _

theorem bootAs_gated {vendor : TisTpmVendor} (known : vendor ≠ .noTpm)
    (mbi nvIndex nvSize : UInt32) :
    Prog.Ends (Recorded start (Waiting [])) (bootAs platform vendor mbi nvIndex nvSize)
      (fun _ => Recorded start LaunchGated) (Recorded start LaunchGated) := by
  have waiting : ∀ m : Machine σ, Recorded start (Waiting []) m →
      Recorded start LaunchGated m := by
    rintro m ⟨events, log, waits, -⟩
    exact ⟨events, log, launchGated_of_none waits⟩
  rw [bootAs, if_neg known]
  refine Prog.Ends.bind (Prog.Ends.mono (measuredBoot_gates platform mbi nvIndex nvSize)
    (fun _ holds => holds) (fun _ _ holds => holds) waiting) fun ret => ?_
  refine Prog.Ends.ite (fun _ => Prog.Ends.ret ?_) fun success => ?_
  · rintro m ⟨events, log, waits, -⟩
    exact ⟨events, log, launchGated_of_none waits⟩
  · refine Prog.Steps.ends (launch_respects platform mbi) ?_
    rintro m reached ⟨events, log, waits, gate⟩ evolves
    obtain ⟨more, appended, -⟩ := evolves.log
    refine ⟨events ++ more, ?_, ?_⟩
    · rw [appended, log, List.append_assoc]
    · exact (gate (Decidable.of_not_not success)).launchGated waits

/-- The event comes before the measurement. -/
def Event.Early : Event → Prop
  | .accessed _ _ => True
  | .output _ => True
  | _ => False

/-- Without a TPM the kernel is launched at once. -/
theorem bootAs_noTpm_not_gated (mbi nvIndex nvSize : UInt32) :
    Prog.Ends (Recorded start fun events => ∀ event ∈ events, event.Early)
      (bootAs platform .noTpm mbi nvIndex nvSize)
      (fun _ => Recorded start fun events => ¬ LaunchGated events)
      (Recorded start fun events => ¬ LaunchGated events) := by
  rw [bootAs, if_pos rfl]
  have shown : Prog.Ends
      (Recorded start fun events => ∀ event ∈ events, event.Early)
      (outString (text "Launching Linux Kernel now..") : Boot σ Unit)
      (fun _ => Recorded start fun events => ∀ event ∈ events, event.Early)
      (Recorded start fun events => ¬ LaunchGated events) := by
    refine emit_recorded fun events early event member => ?_
    rcases List.mem_append.mp member with old | new
    · exact early event old
    · rw [List.mem_singleton] at new
      rw [new]
      trivial
  have launched : Prog.Ends (Recorded start fun events => ∀ event ∈ events, event.Early)
      (emit .launchKernel : Boot σ Unit)
      (fun _ => Recorded start fun events => ¬ LaunchGated events)
      (Recorded start fun events => ¬ LaunchGated events) := by
    refine emit_recorded fun events early gated => ?_
    have cleared := gated events .launchKernel [] rfl trivial
    exact early _ cleared.hashed
  refine shown.bind fun _ => launched.bind fun _ => ?_
  have rest : Respects False False (fun _ => True) (do
      onPlatform platform.launchKernel
      emit .startModule
      onPlatform (platform.startModule mbi) : Boot σ (Result Unit)) := by
    refine (onPlatform_respects _).bind fun _ => (emit_respects trivial).bind fun _ => ?_
    exact onPlatform_respects _
  refine rest.recorded fun events more open_ _ gated => open_ fun before event after split => ?_
  refine gated before event (after ++ more) ?_
  rw [split, List.append_assoc, List.cons_append]

/-- The rest of `post_launch` behind the probe. -/
theorem postLaunch_eq (mbi : UInt32) (present : mbi ≠ 0) {m prepared probed : Machine σ}
    {nv : UInt32 × UInt32} {id : UInt32}
    (starts : postLaunchStart platform mbi m = .ok nv prepared)
    (probes : probeId platform.device prepared = .ok id probed) :
    postLaunch platform mbi m =
      (identifyVendor platform.device id >>= fun vendor =>
        bootAs platform vendor mbi nv.1 nv.2) probed := by
  rw [postLaunch, Prog.bind_ok starts]
  simp only [if_neg present, tisInit_eq, bind_assoc]
  rw [Prog.bind_ok probes]

/-- The events recorded when the probe has returned. -/
theorem probed_early {mbi : UInt32} {m prepared probed : Machine σ} {nv : UInt32 × UInt32}
    {id : UInt32} (starts : postLaunchStart platform mbi m = .ok nv prepared)
    (probes : probeId platform.device prepared = .ok id probed) :
    Recorded m.log (fun events => ∀ event ∈ events, event.Early) probed := by
  have respects : Respects False False Event.Early
      (postLaunchStart platform mbi >>= fun _ => probeId platform.device) :=
    (postLaunchStart_respects platform mbi).bind fun _ =>
      probeId_respects (fun _ => trivial) fun _ _ => trivial
  obtain ⟨events, log, early⟩ := respects.log_eq m
  rw [Prog.bind_ok starts, probes] at log
  exact ⟨events, log, early⟩

/-- The vendor is none exactly if the identification is not known. -/
theorem identifyVendor_ends (id : UInt32) {holds : List Event → Prop}
    {stop : Machine σ → Prop}
    (stable : ∀ events bytes, holds events → holds (events ++ [.output bytes])) :
    Prog.Ends (Recorded start holds) (identifyVendor device id)
      (fun vendor m => (vendor = .noTpm ↔ vendorOf id = none) ∧ Recorded start holds m)
      stop := by
  have shown : ∀ bytes, Prog.Ends (Recorded start holds) (emit (.output bytes) : Boot σ Unit)
      (fun _ => Recorded start holds) stop :=
    fun bytes => emit_recorded fun events known => stable events bytes known
  have reads : ∀ {α : Type} (register : σ → α × σ), Prog.Ends (Recorded start holds)
      (readReg register) (fun _ => Recorded start holds) stop :=
    fun register m known => known
  rw [identifyVendor]
  cases known : vendorOf id with
  | none =>
      have absent : ∀ m : Machine σ, Recorded start holds m →
          (TisTpmVendor.noTpm = .noTpm ↔ none = (none : Option (TisTpmVendor × String))) ∧
            Recorded start holds m :=
        fun m recorded => ⟨iff_of_true rfl rfl, recorded⟩
      refine Prog.Ends.ite (fun _ => ?_) fun _ => ?_
      · exact (shown _).bind fun _ => Prog.Ends.ret absent
      · exact (reads _).bind fun _ => (shown _).bind fun _ => Prog.Ends.ret absent
  | some found =>
      obtain ⟨vendor, message⟩ := found
      refine (reads _).bind fun _ => (shown _).bind fun _ => Prog.Ends.ret ?_
      intro m recorded
      exact ⟨iff_of_false (vendorOf_ne_noTpm known) (by simp), recorded⟩

theorem postLaunch_gated {mbi : UInt32} {m prepared probed : Machine σ}
    {nv : UInt32 × UInt32} {id : UInt32} (present : mbi ≠ 0)
    (starts : postLaunchStart platform mbi m = .ok nv prepared)
    (probes : probeId platform.device prepared = .ok id probed) :
    LaunchGated (eventsOf (postLaunch platform mbi) m) ↔ vendorOf id ≠ none := by
  have early := probed_early platform starts probes
  by_cases unknown : vendorOf id = none
  · refine iff_of_false ?_ (not_not_intro unknown)
    apply @Recorded.eventsOf _ _ _ fun events => ¬ LaunchGated events
    rw [postLaunch_eq platform mbi present starts probes]
    refine Prog.Ends.state (Prog.Ends.bind (identifyVendor_ends platform.device id ?_)
      fun vendor => Prog.Ends.assume fun noTpm => ?_) early
    · intro events bytes early event member
      rcases List.mem_append.mp member with old | new
      · exact early event old
      · rw [List.mem_singleton] at new
        rw [new]
        trivial
    · rw [noTpm.mpr unknown]
      exact bootAs_noTpm_not_gated platform mbi nv.1 nv.2
  · refine iff_of_true ?_ unknown
    apply Recorded.eventsOf
    rw [postLaunch_eq platform mbi present starts probes]
    have waiting : Recorded m.log (Waiting []) probed := by
      obtain ⟨events, log, early⟩ := early
      refine ⟨events, log, fun event member launches => ?_, by simp⟩
      have before := early event member
      cases event with
      | launchKernel => exact before
      | startModule => exact before
      | _ => exact launches
    refine Prog.Ends.state (Prog.Ends.bind (identifyVendor_ends platform.device id ?_)
      fun vendor => Prog.Ends.assume fun noTpm => ?_) waiting
    · intro events bytes waiting
      refine waiting.append fun event member => ?_
      rw [List.mem_singleton] at member
      rw [member]
      exact waits_output bytes
    · exact bootAs_gated platform (fun none => unknown (noTpm.mp none)) mbi nv.1 nv.2

end Gate

/-- A platform without a TPM whose other steps do nothing. -/
def bareLaunchPlatform : Platform Unit where
  device := TisDevice.absent
  copyE820Map := pure ()
  intelPostLaunch := pure ()
  launchKernel := pure ()
  startModule := fun _ => pure (.ok ())

/-- A machine whose command line names an NV area, at address 64. -/
def bareLaunchMachine : Machine Unit :=
  { Machine.blank () with
    heap := 4096
    mem := write (write (fun _ => 0) 32 (le32 64)) 64 (text "--nv-index=1 --nv-size=1") }

end Sable
