import Sable.BootFrames
import Sable.ResponseDelivery

/-!
# Failed TPM commands

A failed TPM command is the last one of its run, and its exception is what the
operation returns: `configure` keeps to this in every run, and `trusted_boot`
in those in which its first `TPM_GetRandom` does not fail, since
`unseal_passphrase` uses that nonce without looking at the exception.
-/

namespace Sable

open BigEndian HaltingProgram

/-- The event ends a TPM command with an exception. -/
def Event.Fails : Event → Prop
  | .finished _ exception => exception ≠ .none
  | _ => False

instance : DecidablePred Event.Fails
  | .finished _ exception => inferInstanceAs (Decidable (exception ≠ .none))
  | .issued _ | .sent _ _ _ | .random _ _ | .opened _ _ | .extend _ _ | .accessed _ _ |
    .hashed _ | .output _ | .confirmed | .booted _ | .launchKernel | .startModule =>
      inferInstanceAs (Decidable False)

/-- The event begins a TPM command. -/
def Event.Issues : Event → Prop
  | .issued _ => True
  | _ => False

/-- The event neither begins nor ends a TPM command. -/
def Event.Silent : Event → Prop
  | .issued _ => False
  | .finished _ _ => False
  | _ => True

/-- The event ends a `TPM_GetRandom`. -/
def Event.endsRandom : Event → Bool
  | .finished ordinal _ => ordinal == ordGetRandom
  | _ => false

/-- How an operation has ended: with an exception it returned, or halted. -/
def endOf {σ α : Type} (outcome : Outcome Halt (Machine σ) (Result α)) : Option Error :=
  outcome.value?.map Result.exception

/-- Every failed command has given the exception with which the operation ended,
and no command has been issued after it. -/
structure Propagated (ended : Option Error) (events : List Event) : Prop where
  returned : ∀ ordinal exception, .finished ordinal exception ∈ events →
    exception ≠ .none → ended = some exception
  last : events.Pairwise fun earlier later => earlier.Fails → ¬ later.Issues

/-- At every point of the run at which a TPM command fails, the operation returns its
exception and issues no further command. -/
def PropagatesErrors {σ α : Type} (operation : Boot σ (Result α)) (m : Machine σ) : Prop :=
  Propagated (endOf (operation m)) (eventsOf operation m)

/-- The first `TPM_GetRandom` among the events, if there is one, has not failed. -/
def FirstRandomSucceeds (events : List Event) : Prop :=
  ∀ exception, events.find? Event.endsRandom = some (.finished ordGetRandom exception) →
    exception = .none

section Events

variable {ended : Option Error} {events more : List Event}

theorem Event.Silent.not_issues {event : Event} (silent : event.Silent) : ¬ event.Issues := by
  cases event with
  | issued ordinal => exact silent.elim
  | _ => exact fun issues => issues

theorem Event.Silent.not_endsRandom {event : Event} (silent : event.Silent) :
    event.endsRandom = false := by
  cases event with
  | finished ordinal exception => exact silent.elim
  | _ => rfl

theorem Propagated.nil : Propagated ended [] :=
  ⟨by simp, List.Pairwise.nil⟩

theorem Propagated.of_append (propagated : Propagated ended (events ++ more)) :
    Propagated ended events :=
  ⟨fun ordinal exception member => propagated.returned ordinal exception
      (List.mem_append_left more member),
    (List.pairwise_append.mp propagated.last).1⟩

/-- Where nothing has failed the operation may end in any way. -/
theorem Propagated.of_quiet (propagated : Propagated none events) : Propagated ended events := by
  refine ⟨fun ordinal exception member failed => ?_, propagated.last⟩
  cases propagated.returned ordinal exception member failed

theorem propagated_none_iff : Propagated (some .none) events ↔ Propagated none events := by
  refine ⟨fun propagated => ⟨fun ordinal exception member failed => ?_, propagated.last⟩,
    Propagated.of_quiet⟩
  have same := propagated.returned ordinal exception member failed
  rw [Option.some.injEq] at same
  exact (failed same.symm).elim

theorem propagated_append_silent (silent : ∀ event ∈ more, event.Silent) :
    Propagated ended (events ++ more) ↔ Propagated ended events := by
  refine ⟨Propagated.of_append, fun propagated => ⟨?_, ?_⟩⟩
  · intro ordinal exception member failed
    rcases List.mem_append.mp member with early | late
    · exact propagated.returned ordinal exception early failed
    · exact (silent _ late).elim
  · refine List.pairwise_append.mpr ⟨propagated.last, ?_, ?_⟩
    · rw [List.pairwise_iff_forall_sublist]
      intro earlier later sublist _
      exact (silent later (sublist.subset (by simp))).not_issues
    · exact fun earlier _ later member _ => (silent later member).not_issues

/-- No command has failed before another one is issued. -/
theorem Propagated.append_issued (propagated : Propagated none events) (ordinal : UInt32) :
    Propagated none (events ++ [.issued ordinal]) := by
  constructor
  · intro other exception member failed
    rcases List.mem_append.mp member with early | late
    · exact propagated.returned other exception early failed
    · simp at late
  · refine List.pairwise_append.mpr ⟨propagated.last, List.pairwise_singleton _ _, ?_⟩
    intro earlier member later _ fails
    cases earlier with
    | finished other exception => cases propagated.returned other exception member fails
    | _ => exact fails.elim

theorem Propagated.append_finished (propagated : Propagated none events)
    (ordinal : UInt32) (exception : Error) :
    Propagated (some exception) (events ++ [.finished ordinal exception]) := by
  constructor
  · intro other thrown member failed
    rcases List.mem_append.mp member with early | late
    · cases propagated.returned other thrown early failed
    · rw [List.mem_singleton, Event.finished.injEq] at late
      rw [late.2]
  · refine List.pairwise_append.mpr ⟨propagated.last, List.pairwise_singleton _ _, ?_⟩
    intro earlier _ later member _ issues
    rw [List.mem_singleton] at member
    rw [member] at issues
    exact issues

/-- A command issued after a failed one. -/
theorem not_propagated_issued {failed : Event} (member : failed ∈ events)
    (fails : failed.Fails) (ordinal : UInt32) :
    ¬ Propagated ended (events ++ [.issued ordinal]) := by
  intro propagated
  have separate := (List.pairwise_append.mp propagated.last).2.2
  exact separate failed member (.issued ordinal) List.mem_cons_self fails trivial

theorem find?_endsRandom_append (other : ∀ event ∈ more, event.endsRandom = false) :
    (events ++ more).find? Event.endsRandom = events.find? Event.endsRandom := by
  have absent : more.find? Event.endsRandom = none := by
    simpa [List.find?_eq_none] using other
  rw [List.find?_append, absent, Option.or_none]

end Events

section Rules

variable {σ α β : Type} {start : List Event}
  {pre mid post : Option Error → List Event → Prop}

/-- Started after events with `pre`, the program leaves events with `post`; both may depend
on how the program has ended. -/
def Throws (start : List Event) (pre post : Option Error → List Event → Prop)
    (program : Boot σ (Result α)) : Prop :=
  Prog.Ends (Recorded start (pre none)) program
    (fun ret => Recorded start (post (some ret.exception))) (Recorded start (post none))

/-- A property of the events for which returning without an exception is like going on, and
silent events do not matter. -/
structure Carried (holds : Option Error → List Event → Prop) : Prop where
  quiet : ∀ events, holds (some .none) events ↔ holds none events
  silent : ∀ ended events more, holds ended events → (∀ event ∈ more, event.Silent) →
    holds ended (events ++ more)

/-- A property of the events that a command with the given ordinal carries along; with no
failed command an operation may still return an exception of its own. -/
structure Follows (holds : Option Error → List Event → Prop) (ordinal : UInt32) : Prop
    extends Carried holds where
  own : ∀ events exception, holds none events → holds (some exception) events
  issued : ∀ events, holds none events → holds none (events ++ [.issued ordinal])
  finished : ∀ events exception, holds none events →
    holds (some exception) (events ++ [.finished ordinal exception])

theorem Throws.mono {program : Boot σ (Result α)} {weak : Option Error → List Event → Prop}
    (throws : Throws start pre mid program)
    (before : ∀ events, weak none events → pre none events)
    (after : ∀ ended events, mid ended events → post ended events) :
    Throws start weak post program := by
  refine Prog.Ends.mono throws ?_ ?_ ?_
  · rintro m ⟨events, log, holds⟩
    exact ⟨events, log, before events holds⟩
  · rintro ret m ⟨events, log, holds⟩
    exact ⟨events, log, after _ events holds⟩
  · rintro m ⟨events, log, holds⟩
    exact ⟨events, log, after _ events holds⟩

theorem Throws.ret {value : Result α}
    (holds : ∀ events, pre none events → post (some value.exception) events) :
    Throws start pre post (pure value : Boot σ (Result α)) := by
  refine Prog.Ends.ret ?_
  rintro m ⟨events, log, property⟩
  exact ⟨events, log, holds events property⟩

/-- Sequencing after a program that issues no command. -/
theorem Throws.bind_silent {first : Boot σ α} {next : α → Boot σ (Result β)}
    (carried : Carried pre) (weaker : ∀ events, pre none events → post none events)
    (silent : Respects False False Event.Silent first)
    (second : ∀ value, Throws start pre post (next value)) :
    Throws start pre post (first >>= next) := by
  refine Prog.Ends.bind ?_ second
  refine Prog.Ends.mono (silent.recorded (carried.silent none)) (fun _ holds => holds)
    (fun _ _ holds => holds) ?_
  rintro m ⟨events, log, holds⟩
  exact ⟨events, log, weaker events holds⟩

/-- `THROW`: the rest is run only if there is no exception. -/
theorem Throws.bind_throw {first : Boot σ (Result α)} {failed : Result α → Result β}
    {next : Result α → Boot σ (Result β)} (carried : Carried mid)
    (weaker : ∀ ended events, mid ended events → post ended events)
    (program : Throws start pre mid first)
    (thrown : ∀ ret, (failed ret).exception = ret.exception)
    (second : ∀ ret, ret.exception = .none → Throws start mid post (next ret)) :
    Throws start pre post (first >>= fun ret =>
      if ret.exception ≠ .none then pure (failed ret) else next ret) := by
  have first : Prog.Ends (Recorded start (pre none)) first
      (fun ret => Recorded start (mid (some ret.exception))) (Recorded start (post none)) := by
    refine Prog.Ends.mono program (fun _ holds => holds) (fun _ _ holds => holds) ?_
    rintro m ⟨events, log, holds⟩
    exact ⟨events, log, weaker none events holds⟩
  refine first.bind fun ret => Prog.Ends.ite (fun _ => ?_) fun success => ?_
  · refine Prog.Ends.ret ?_
    rintro m ⟨events, log, holds⟩
    rw [thrown]
    exact ⟨events, log, weaker _ events holds⟩
  · have success := Decidable.of_not_not success
    refine Prog.Ends.mono (second ret success) ?_ (fun _ _ holds => holds) fun _ holds => holds
    rintro m ⟨events, log, holds⟩
    rw [success, carried.quiet] at holds
    exact ⟨events, log, holds⟩

/-- The events inside a command are silent. -/
theorem silent_bodyEvents : BodyEvents Event.Silent :=
  ⟨fun _ _ _ => trivial, fun _ _ => trivial⟩

theorem IsCommand.throws_to {ordinal : UInt32} {program : Boot σ (Result α)}
    (isCommand : IsCommand False False ordinal program) (carried : Carried pre)
    (issued : ∀ events, pre none events → pre none (events ++ [.issued ordinal]))
    (weaker : ∀ events, pre none events → post none events)
    (finished : ∀ events exception, pre none events →
      post (some exception) (events ++ [.finished ordinal exception])) :
    Throws start pre post program := by
  obtain ⟨body, rfl, respects⟩ := isCommand
  refine Prog.Ends.bind (emit_recorded issued) fun _ => ?_
  have silent : Prog.Ends (Recorded start (pre none)) body
      (fun _ => Recorded start (pre none)) (Recorded start (post none)) := by
    refine Prog.Ends.mono ((respects _ silent_bodyEvents).recorded (carried.silent none))
      (fun _ holds => holds) (fun _ _ holds => holds) ?_
    rintro m ⟨events, log, holds⟩
    exact ⟨events, log, weaker events holds⟩
  refine silent.bind fun ret => ?_
  refine Prog.Ends.bind (emit_recorded fun events => finished events ret.exception) fun _ => ?_
  exact Prog.Ends.ret fun m recorded => recorded

theorem IsCommand.throws {ordinal : UInt32} {program : Boot σ (Result α)}
    (isCommand : IsCommand False False ordinal program) (follows : Follows mid ordinal) :
    Throws start mid mid program :=
  isCommand.throws_to follows.toCarried follows.issued (fun _ known => known) follows.finished

end Rules

section Properties

/-- Nothing but the propagation of exceptions is followed. -/
theorem propagated_follows (ordinal : UInt32) : Follows Propagated ordinal where
  quiet := fun _ => propagated_none_iff
  silent := fun _ _ _ holds silent => (propagated_append_silent silent).mpr holds
  own := fun _ _ holds => holds.of_quiet
  issued := fun _ holds => holds.append_issued ordinal
  finished := fun _ exception holds => holds.append_finished ordinal exception

/-- What is known before and after the first `TPM_GetRandom`. -/
def PropagatedWith (random : Option Event) (ended : Option Error) (events : List Event) :
    Prop :=
  Propagated ended events ∧ events.find? Event.endsRandom = random

theorem propagatedWith_carried (random : Option Event) : Carried (PropagatedWith random) where
  quiet := fun _ => and_congr_left' propagated_none_iff
  silent := by
    rintro ended events more ⟨propagated, first⟩ silent
    refine ⟨(propagated_append_silent silent).mpr propagated, ?_⟩
    rw [find?_endsRandom_append fun event member => (silent event member).not_endsRandom, first]

/-- A command other than `TPM_GetRandom` is followed at any point. -/
theorem propagatedWith_follows (random : Option Event) {ordinal : UInt32}
    (other : ordinal ≠ ordGetRandom) : Follows (PropagatedWith random) ordinal where
  toCarried := propagatedWith_carried random
  own := fun _ _ holds => ⟨holds.1.of_quiet, holds.2⟩
  issued := by
    rintro events ⟨propagated, first⟩
    refine ⟨propagated.append_issued ordinal, ?_⟩
    rw [find?_endsRandom_append (by simp [Event.endsRandom]), first]
  finished := by
    rintro events exception ⟨propagated, first⟩
    refine ⟨propagated.append_finished ordinal exception, ?_⟩
    rw [find?_endsRandom_append (by simp [Event.endsRandom, other]), first]

/-- After the first `TPM_GetRandom` every command is followed. -/
theorem propagatedWith_some_follows (event : Event) (ordinal : UInt32) :
    Follows (PropagatedWith (some event)) ordinal where
  toCarried := propagatedWith_carried (some event)
  own := fun _ _ holds => ⟨holds.1.of_quiet, holds.2⟩
  issued := by
    rintro events ⟨propagated, first⟩
    refine ⟨propagated.append_issued ordinal, ?_⟩
    rw [List.find?_append, first, Option.some_or]
  finished := by
    rintro events exception ⟨propagated, first⟩
    refine ⟨propagated.append_finished ordinal exception, ?_⟩
    rw [List.find?_append, first, Option.some_or]

/-- What is known when the first `TPM_GetRandom` has returned. -/
def AfterRandom (ended : Option Error) (events : List Event) : Prop :=
  PropagatedWith (ended.map (.finished ordGetRandom)) ended events

/-- Exceptions have been propagated exactly if the first `TPM_GetRandom` has not failed. -/
def PropagatedIff (ended : Option Error) (events : List Event) : Prop :=
  Propagated ended events ↔ FirstRandomSucceeds events

theorem propagatedIff_carried : Carried PropagatedIff where
  quiet := fun _ => by rw [PropagatedIff, PropagatedIff, propagated_none_iff]
  silent := by
    intro ended events more holds silent
    have first := @find?_endsRandom_append events more fun event member =>
      (silent event member).not_endsRandom
    rw [PropagatedIff, FirstRandomSucceeds, first, propagated_append_silent silent]
    exact holds

theorem PropagatedWith.iff_of_none {ended : Option Error} {events : List Event}
    (holds : PropagatedWith none ended events) : PropagatedIff ended events := by
  refine iff_of_true holds.1 fun exception found => ?_
  rw [holds.2] at found
  cases found

theorem PropagatedWith.iff_of_success {ended : Option Error} {events : List Event}
    (holds : PropagatedWith (some (.finished ordGetRandom .none)) ended events) :
    PropagatedIff ended events := by
  refine iff_of_true holds.1 fun exception found => ?_
  rw [holds.2, Option.some.injEq, Event.finished.injEq] at found
  exact found.2.symm

/-- A command has been issued although the first `TPM_GetRandom` has failed. -/
def Ignored (events : List Event) : Prop :=
  ¬ FirstRandomSucceeds events ∧ ∀ ended, ¬ Propagated ended events

theorem Ignored.append {events : List Event} (ignored : Ignored events) (more : List Event) :
    Ignored (events ++ more) := by
  refine ⟨fun succeeds => ignored.1 fun exception found => ?_, fun ended propagated => ?_⟩
  · apply succeeds exception
    rw [List.find?_append, found, Option.some_or]
  · exact ignored.2 ended propagated.of_append

theorem PropagatedWith.ignored {ended : Option Error} {events : List Event}
    {exception : Error} (failed : exception ≠ .none)
    (holds : PropagatedWith (some (.finished ordGetRandom exception)) ended events)
    (ordinal : UInt32) : Ignored (events ++ [.issued ordinal]) := by
  refine ⟨fun succeeds => failed (succeeds exception ?_), fun other => ?_⟩
  · rw [List.find?_append, holds.2, Option.some_or]
  · exact not_propagated_issued (List.mem_of_find?_eq_some holds.2) failed ordinal

end Properties

section Operations

variable {σ : Type} {device : TisDevice σ} {start : List Event}
  {holds : Option Error → List Event → Prop}

theorem silent_output (bytes : List UInt8) : Event.Silent (.output bytes) :=
  trivial

theorem getNonce_throws_to {pre post : Option Error → List Event → Prop}
    (carried : Carried pre)
    (silent : ∀ exception events more, post (some exception) events →
      (∀ event ∈ more, event.Silent) → post (some exception) (events ++ more))
    (issued : ∀ events, pre none events → pre none (events ++ [.issued ordGetRandom]))
    (weaker : ∀ events, pre none events → post none events)
    (finished : ∀ events exception, pre none events →
      post (some exception) (events ++ [.finished ordGetRandom exception])) :
    Throws start pre post (getNonce device) := by
  have random : Throws start pre post (tpmGetRandom device (List.replicate 20 0) 20) := by
    refine Prog.Ends.bind ((randomCommand_isCommand _ _).throws_to carried issued weaker
      finished) fun ret => ?_
    have recorded : Prog.Ends (Recorded start (post (some ret.exception)))
        (emit (.random ret.exception ret.value) : Boot σ Unit)
        (fun _ => Recorded start (post (some ret.exception))) (Recorded start (post none)) :=
      emit_recorded fun events known => silent _ _ _ known (by simp [Event.Silent])
    exact recorded.bind fun _ => Prog.Ends.ret fun m known => known
  refine Prog.Ends.bind random fun ret => Prog.Ends.ite (fun _ => ?_) fun success => ?_
  · exact Prog.Ends.ret fun m known => known
  · refine Prog.Ends.ret fun m known => ?_
    rw [Decidable.of_not_not success] at known
    exact known

theorem getNonce_throws (follows : Follows holds ordGetRandom) :
    Throws start holds holds (getNonce device) :=
  getNonce_throws_to follows.toCarried (fun exception => follows.silent (some exception))
    follows.issued (fun _ known => known) follows.finished

theorem getAuthdata_throws {ordinal : UInt32} (follows : Follows holds ordinal) :
    Throws start holds holds (getAuthdata : Boot σ (Result (Block 20))) := by
  have silent : Respects False False Event.Silent (getAuthdata : Boot σ (Result (Block 20))) :=
    getAuthdata_respects silent_output
  refine Prog.Ends.mono (silent.recorded (follows.silent none)) (fun _ known => known) ?_
    fun _ known => known
  rintro ret m ⟨events, log, known⟩
  exact ⟨events, log, follows.own events ret.exception known⟩

section All

variable (follows : ∀ ordinal, Follows holds ordinal)

include follows

theorem Throws.bind_carried {α β : Type} {first : Boot σ α} {next : α → Boot σ (Result β)}
    (silent : Respects False False Event.Silent first)
    (second : ∀ value, Throws start holds holds (next value)) :
    Throws start holds holds (first >>= next) :=
  Throws.bind_silent (follows 0).toCarried (fun _ known => known) silent second

theorem Throws.bind_thrown {α β : Type} {first : Boot σ (Result α)}
    {failed : Result α → Result β} {next : Result α → Boot σ (Result β)}
    (program : Throws start holds holds first)
    (thrown : ∀ ret, (failed ret).exception = ret.exception)
    (second : ∀ ret, Throws start holds holds (next ret)) :
    Throws start holds holds (first >>= fun ret =>
      if ret.exception ≠ .none then pure (failed ret) else next ret) :=
  Throws.bind_throw (follows 0).toCarried (fun _ _ known => known) program thrown
    fun ret _ => second ret

theorem Throws.success {α : Type} {value : Result α} (success : value.exception = .none) :
    Throws start holds holds (pure value : Boot σ (Result α)) := by
  refine Throws.ret fun events known => ?_
  rw [success]
  exact ((follows 0).quiet events).mpr known

theorem getPcrInfo_throws : Throws start holds holds (getPcrInfo device) := by
  refine Throws.bind_carried follows (allocHeap_respects _) fun _ => ?_
  refine Throws.bind_carried follows (allocHeap_respects _) fun _ => ?_
  refine Throws.bind_carried follows (storeBytes_respects _ _ _) fun _ => ?_
  refine Throws.bind_carried follows (storeBytes_respects _ _ _) fun _ => ?_
  refine Throws.bind_carried follows (storeBytes_respects _ _ _) fun _ => ?_
  refine Throws.bind_thrown follows ((tpmPCRRead_isCommand 18).throws (follows _))
    (fun _ => rfl) fun _ => ?_
  refine Throws.bind_carried follows (storeBytes_respects _ _ _) fun _ => ?_
  refine Throws.bind_thrown follows ((tpmPCRRead_isCommand 19).throws (follows _))
    (fun _ => rfl) fun _ => ?_
  refine Throws.bind_carried follows (storeBytes_respects _ _ _) fun _ => ?_
  refine Throws.bind_carried follows (getTpmCompositeHash_respects _) fun _ => ?_
  exact Throws.success follows rfl

theorem sealPassphrase_throws (srkAuth ppAuth : Block 20) (passphrase lenPassphrase : UInt32) :
    Throws start holds holds
      (sealPassphrase device srkAuth ppAuth passphrase lenPassphrase) := by
  refine Throws.bind_thrown follows (getNonce_throws (follows _)) (fun _ => rfl) fun _ => ?_
  refine Throws.bind_thrown follows ((tpmOSAP_isCommand _ _ _ _).throws (follows _))
    (fun _ => rfl) fun _ => ?_
  refine Throws.bind_thrown follows (getNonce_throws (follows _)) (fun _ => rfl) fun _ => ?_
  refine Throws.bind_carried follows (setNonceOdd_respects _ _) fun _ => ?_
  refine Throws.bind_carried follows (endAfterCommand_respects _) fun _ => ?_
  refine Throws.bind_carried follows (sessionSecret_respects _) fun _ => ?_
  refine Throws.bind_carried follows (getSlot_respects _) fun _ => ?_
  refine Throws.bind_carried follows (loadSession_respects _) fun _ => ?_
  refine Throws.bind_thrown follows (getPcrInfo_throws follows) (fun _ => rfl) fun _ => ?_
  exact (tpmSeal_isCommand _ _ _ _ _ _ _).throws (follows _)

theorem writePassphrase_throws (nvAuth : Block 20) (sealedData : TpmStoredData12)
    (index size : UInt32) :
    Throws start holds holds (writePassphrase device nvAuth sealedData index size) := by
  refine Throws.bind_thrown follows ((tpmOIAP_isCommand _).throws (follows _))
    (fun _ => rfl) fun _ => ?_
  refine Throws.bind_thrown follows (getNonce_throws (follows _)) (fun _ => rfl) fun _ => ?_
  refine Throws.bind_carried follows (setNonceOdd_respects _ _) fun _ => ?_
  refine Throws.bind_carried follows (endAfterCommand_respects _) fun _ => ?_
  refine Throws.bind_carried follows (extractStoredData12_respects _) fun _ => ?_
  exact (tpmNvWriteValueAuth_isCommand _ _ _ _ _ _).throws (follows _)

theorem configure_throws (index size : UInt32) :
    Throws start holds holds (configure device index size) := by
  refine Throws.bind_carried follows (allocHeap_respects _) fun _ => ?_
  refine Throws.bind_carried follows (outString_respects silent_output _) fun _ => ?_
  refine Throws.bind_carried follows (getStringAt_respects silent_output _ _ _) fun _ => ?_
  refine Throws.bind_carried follows (outString_respects silent_output _) fun _ => ?_
  refine Throws.bind_thrown follows (getAuthdata_throws (follows 0)) (fun _ => rfl) fun _ => ?_
  refine Throws.bind_carried follows (outString_respects silent_output _) fun _ => ?_
  refine Throws.bind_thrown follows (getAuthdata_throws (follows 0)) (fun _ => rfl) fun _ => ?_
  refine Throws.bind_thrown follows (sealPassphrase_throws follows _ _ _ _) (fun _ => rfl)
    fun _ => ?_
  refine Throws.bind_carried follows (outString_respects silent_output _) fun _ => ?_
  refine Throws.bind_thrown follows (getAuthdata_throws (follows 0)) (fun _ => rfl) fun _ => ?_
  exact writePassphrase_throws follows _ _ _ _

end All

theorem readPassphrase_throws (follows : Follows holds ordNvReadValue) (index size : UInt32) :
    Throws start holds holds (readPassphrase device index size) := by
  refine Throws.bind_throw follows.toCarried (fun _ _ known => known)
    ((tpmNvReadValue_isCommand _ _ _ _ _).throws follows) (fun _ => rfl) fun _ _ => ?_
  refine Throws.bind_silent follows.toCarried (fun _ known => known)
    (unpackStoredData12_respects _ _) fun _ => ?_
  exact Throws.ret fun events known => follows.own events _ known

/-- What follows the first nonce in `unseal_passphrase`. -/
def unsealWith (device : TisDevice σ) (srkAuth ppAuth : Block 20) (sealedPp : TpmStoredData12)
    (nonceOdd : Result (Block 20)) : Boot σ (Result UInt32) := do
  let srkOsapRet ← tpmOSAP device etKeyhandle khSRK nonceOdd.value .zero
  if srkOsapRet.exception ≠ .none then return .error srkOsapRet.exception 0
  endAfterCommand .zero
  let sharedSecret ← sessionSecret srkAuth
  let ppOiapRet ← tpmOIAP device .one
  if ppOiapRet.exception ≠ .none then return .error ppOiapRet.exception 0
  let nonceOdd ← getNonce device
  if nonceOdd.exception ≠ .none then return .error nonceOdd.exception 0
  setNonceOdd .one nonceOdd.value
  endAfterCommand .one
  let unsealRet ← tpmUnseal device sealedPp khSRK sharedSecret .zero ppAuth .one
  if unsealRet.exception ≠ .none then return .error unsealRet.exception 0
  return .ok unsealRet.value.data

theorem unsealPassphrase_eq (srkAuth ppAuth : Block 20) (sealedPp : TpmStoredData12) :
    unsealPassphrase device srkAuth ppAuth sealedPp =
      getNonce device >>= unsealWith device srkAuth ppAuth sealedPp :=
  rfl

theorem unsealWith_throws (follows : ∀ ordinal, Follows holds ordinal)
    (srkAuth ppAuth : Block 20) (sealedPp : TpmStoredData12) (nonceOdd : Result (Block 20)) :
    Throws start holds holds (unsealWith device srkAuth ppAuth sealedPp nonceOdd) := by
  refine Throws.bind_thrown follows ((tpmOSAP_isCommand _ _ _ _).throws (follows _))
    (fun _ => rfl) fun _ => ?_
  refine Throws.bind_carried follows (endAfterCommand_respects _) fun _ => ?_
  refine Throws.bind_carried follows (sessionSecret_respects _) fun _ => ?_
  refine Throws.bind_thrown follows ((tpmOIAP_isCommand _).throws (follows _))
    (fun _ => rfl) fun _ => ?_
  refine Throws.bind_thrown follows (getNonce_throws (follows _)) (fun _ => rfl) fun _ => ?_
  refine Throws.bind_carried follows (setNonceOdd_respects _ _) fun _ => ?_
  refine Throws.bind_carried follows (endAfterCommand_respects _) fun _ => ?_
  refine Throws.bind_thrown follows ((tpmUnseal_isCommand _ _ _ _ _ _).throws (follows _))
    (fun _ => rfl) fun _ => ?_
  exact Throws.success follows rfl

/-- Every event may be recorded. -/
theorem any_commandEvents : CommandEvents fun _ => True :=
  ⟨⟨fun _ _ _ => trivial, fun _ _ => trivial⟩, fun _ => trivial, fun _ _ => trivial,
    fun _ _ => trivial⟩

/-- After a nonce that was not delivered the session is opened all the same. -/
theorem unsealWith_ignores (srkAuth ppAuth : Block 20) (sealedPp : TpmStoredData12)
    {nonceOdd : Result (Block 20)} (failed : nonceOdd.exception ≠ .none) :
    Prog.Ends (Recorded start (AfterRandom (some nonceOdd.exception)))
      (unsealWith device srkAuth ppAuth sealedPp nonceOdd)
      (fun _ => Recorded start Ignored) (Recorded start Ignored) := by
  have stable : ∀ events more, Ignored events → (∀ event ∈ more, True) →
      Ignored (events ++ more) :=
    fun events more ignored _ => ignored.append more
  obtain ⟨body, isCommand, respects⟩ :=
    @tpmOSAP_isCommand σ device etKeyhandle khSRK nonceOdd.value .zero
  have any := any_commandEvents
  have opens : Prog.Ends (Recorded start (AfterRandom (some nonceOdd.exception)))
      (command ordOSAP body) (fun _ => Recorded start Ignored) (Recorded start Ignored) := by
    refine Prog.Ends.bind (emit_recorded fun events known => known.ignored failed ordOSAP)
      fun _ => ?_
    refine Respects.recorded ((respects _ any.toBodyEvents).bind fun _ => ?_) stable
    exact (emit_respects trivial).bind fun _ => Respects.ret _
  rw [unsealWith, isCommand]
  refine opens.bind fun ret => ?_
  refine Respects.recorded (Respects.ite (Respects.ret _) ?_) stable
  refine (endAfterCommand_respects _).bind fun _ => (sessionSecret_respects _).bind fun _ => ?_
  refine ((tpmOIAP_isCommand _).respects any).bind fun _ => Respects.ite (Respects.ret _) ?_
  refine (getNonce_respects any).bind fun _ => Respects.ite (Respects.ret _) ?_
  refine (setNonceOdd_respects _ _).bind fun _ => (endAfterCommand_respects _).bind fun _ => ?_
  refine ((tpmUnseal_isCommand _ _ _ _ _ _).respects any).bind fun _ => ?_
  exact Respects.ite (Respects.ret _) (Respects.ret _)

theorem unsealPassphrase_throws (srkAuth ppAuth : Block 20) (sealedPp : TpmStoredData12) :
    Throws start (PropagatedWith none) PropagatedIff
      (unsealPassphrase device srkAuth ppAuth sealedPp) := by
  have nonce : Throws start (PropagatedWith none) AfterRandom (getNonce device) := by
    refine getNonce_throws_to (propagatedWith_carried none)
      (fun exception => (propagatedWith_carried _).silent _) ?_ (fun _ known => known) ?_
    · rintro events ⟨propagated, first⟩
      refine ⟨propagated.append_issued _, ?_⟩
      rw [find?_endsRandom_append (by simp [Event.endsRandom]), first]
    · rintro events exception ⟨propagated, first⟩
      refine ⟨propagated.append_finished _ exception, ?_⟩
      rw [List.find?_append, first]
      rfl
  rw [unsealPassphrase_eq]
  refine Prog.Ends.bind (Prog.Ends.mono nonce (fun _ known => known) (fun _ _ known => known) ?_)
    fun ret => ?_
  · rintro m ⟨events, log, known⟩
    exact ⟨events, log, known.iff_of_none⟩
  by_cases success : ret.exception = .none
  · have rest : Throws start _ _ (unsealWith device srkAuth ppAuth sealedPp ret) :=
      unsealWith_throws (propagatedWith_some_follows (.finished ordGetRandom .none)) _ _ _ _
    have rest := rest.mono (fun _ known => known) fun _ _ known => known.iff_of_success
    refine Prog.Ends.mono rest ?_ (fun _ _ known => known) fun _ known => known
    rintro m ⟨events, log, propagated, first⟩
    rw [success] at propagated first
    exact ⟨events, log, propagated_none_iff.mp propagated, first⟩
  · refine Prog.Ends.mono (unsealWith_ignores srkAuth ppAuth sealedPp success)
      (fun _ known => known) ?_ ?_
    · rintro value m ⟨events, log, known⟩
      exact ⟨events, log, iff_of_false (known.2 _) known.1⟩
    · rintro m ⟨events, log, known⟩
      exact ⟨events, log, iff_of_false (known.2 _) known.1⟩

theorem trustedBoot_throws (index size : UInt32) :
    Throws start (PropagatedWith none) PropagatedIff (trustedBoot device index size) := by
  have carried := propagatedWith_carried none
  have weaker : ∀ ended events, PropagatedWith none ended events → PropagatedIff ended events :=
    fun _ _ known => known.iff_of_none
  have read : Follows (PropagatedWith none) ordNvReadValue :=
    propagatedWith_follows none (by decide)
  refine Throws.bind_throw carried weaker (readPassphrase_throws read _ _) (fun _ => rfl)
    fun _ _ => ?_
  refine Throws.bind_silent carried (weaker none) (outString_respects silent_output _)
    fun _ => ?_
  refine Throws.bind_throw carried weaker (getAuthdata_throws read) (fun _ => rfl) fun _ _ => ?_
  refine Throws.bind_silent carried (weaker none) (outString_respects silent_output _)
    fun _ => ?_
  refine Throws.bind_throw carried weaker (getAuthdata_throws read) (fun _ => rfl) fun _ _ => ?_
  refine Throws.bind_throw propagatedIff_carried (fun _ _ known => known)
    (unsealPassphrase_throws _ _ _) (fun _ => rfl) fun _ _ => ?_
  refine Throws.bind_silent propagatedIff_carried (fun _ known => known)
    (confirmPassphrase_respects silent_output trivial _) fun _ => ?_
  exact Throws.ret fun events known => (propagatedIff_carried.quiet events).mpr known

theorem Throws.eventsOf {α : Type} {pre post : Option Error → List Event → Prop}
    {operation : Boot σ (Result α)} {m : Machine σ} (throws : Throws m.log pre post operation)
    (start : pre none []) : post (endOf (operation m)) (eventsOf operation m) := by
  have ended := throws m ⟨[], (List.append_nil _).symm, start⟩
  apply Recorded.eventsOf
  rw [endOf]
  cases run : operation m with
  | ok ret reached =>
      rw [run] at ended
      exact ended
  | halt reason reached =>
      rw [run] at ended
      exact ended

end Operations

theorem trustedBoot_propagates_iff {σ : Type} (device : TisDevice σ) (index size : UInt32)
    (m : Machine σ) :
    PropagatesErrors (trustedBoot device index size) m ↔
      FirstRandomSucceeds (eventsOf (trustedBoot device index size) m) :=
  (trustedBoot_throws index size).eventsOf ⟨Propagated.nil, rfl⟩

/-- The responses in a boot whose TPM has no random bytes: the NV area with a small blob, a
failed `TPM_GetRandom`, and a failed `TPM_OSAP`. -/
def failingResponses : List (List UInt8) :=
  [[0, 0xc4, 0, 0, 0, 28, 0, 0, 0, 0, 0, 0, 0, 14, 0, 0x16, 0, 0, 0, 0, 0, 1, 7, 0, 0, 0, 1, 9],
    [0, 0xc4, 0, 0, 0, 10, 0, 0, 0, 2], [0, 0xc4, 0, 0, 0, 10, 0, 0, 0, 3]]

/-- A machine whose user leaves both authorisation strings empty. -/
def failingMachine : Machine (List UInt8 × List (List UInt8)) :=
  { Machine.blank ([], failingResponses) with
    heap := 4096
    mem := MemNode.store (fun _ => 0) 4096 ⟨63, 0⟩
    keys := [13, 13, 13, 13] }

end Sable
