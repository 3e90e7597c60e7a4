import Sable.RendezvousCounters

/-!
# The processors that a shutdown waits for

Before the kernel runs, the first processor copies `ap_wfs_count` to `num_in_wfs`, which the
others go on changing.  From then on the distance between `num_in_wfs` and the number of
processors that have begun to wait stays what it was, and it decides when a shutdown goes on.
-/

namespace Sable

open Occupancy

section Drift

variable {ι : Type} [Fintype ι] [DecidableEq ι] {platform : RlpPlatform ι}
  {s reached : Rendezvous ι} {drift : UInt32}

/-- `num_in_wfs` has been published and differs from the number of processors in the loop or
the guest by `drift`. -/
structure Drifts (s : Rendezvous ι) (drift : UInt32) : Prop where
  published : s.bsp.hasPublished = true
  inWfs : Counts ApPhase.isInWfs s.phase s.numInWfs drift

theorem Interleaved.drifts (step : Interleaved platform s reached) (drifts : Drifts s drift) :
    Drifts reached drift := by
  obtain ⟨event, step⟩ := step
  cases event with
  | bsp =>
    have moves := bspStep_moves step
    refine ⟨moves.published drifts.published, ?_⟩
    rw [moves.phase_eq, moves.numInWfs_eq drifts.published]
    exact drifts.inWfs
  | ap i action =>
    obtain ⟨old, new, moves⟩ := apStep_moves step
    refine ⟨by rw [moves.bsp_eq]; exact drifts.published, ?_⟩
    have tallied := moves.inWfs
    rw [← moves.here] at tallied
    rw [moves.phase_eq]
    exact drifts.inWfs.tallied tallied
  | wakeUp trigger addr =>
    obtain ⟨-, same⟩ := Option.ite_none_right_eq_some.mp step
    cases same
    exact ⟨drifts.published, drifts.inWfs⟩

omit [Fintype ι] in
/-- A processor that has been turned away does not come back. -/
theorem Interleaved.stranded (step : Interleaved platform s reached) (i : ι)
    (stranded : (s.phase i).isStranded = true) : (reached.phase i).isStranded = true := by
  obtain ⟨event, step⟩ := step
  cases event with
  | bsp => rwa [(bspStep_moves step).phase_eq]
  | ap j action =>
    obtain ⟨old, new, moves⟩ := apStep_moves step
    rw [moves.phase_eq]
    by_cases same : i = j
    · subst same
      rw [Function.update_self]
      rw [moves.here] at stranded
      exact moves.stranded stranded
    · rwa [Function.update_of_ne same]
  | wakeUp trigger addr =>
    obtain ⟨-, same⟩ := Option.ite_none_right_eq_some.mp step
    cases same
    exact stranded

theorem run_drifts (run : Relation.ReflTransGen (Interleaved platform) s reached)
    (drifts : Drifts s drift) : Drifts reached drift := by
  induction run with
  | refl => exact drifts
  | tail _ step before => exact step.drifts before

omit [Fintype ι] in
theorem run_stranded (run : Relation.ReflTransGen (Interleaved platform) s reached) (i : ι)
    (stranded : (s.phase i).isStranded = true) : (reached.phase i).isStranded = true := by
  induction run with
  | refl => exact stranded
  | tail _ step before => exact step.stranded i before

end Drift

section Zones

variable {ι : Type} [Fintype ι]

theorem occupancy_isCounted (phase : ι → ApPhase) :
    occupancy ApPhase.isCounted phase = occupancy ApPhase.isOnWay phase +
      occupancy ApPhase.isStranded phase + occupancy ApPhase.isIdle phase := by
  have settled :
      occupancy (fun p : ApPhase => p.isOnWay || p.isStranded) phase =
        occupancy ApPhase.isOnWay phase + occupancy ApPhase.isStranded phase :=
    occupancy_split (by intro p; cases p <;> rfl) phase
  rw [← settled]
  exact occupancy_split (by intro p; cases p <;> rfl) phase

theorem occupancy_isInWfs (phase : ι → ApPhase) :
    occupancy ApPhase.isInWfs phase =
      occupancy ApPhase.isIdle phase + occupancy ApPhase.isReleased phase :=
  occupancy_split (by intro p; cases p <;> rfl) phase

theorem occupancy_zones_le (phase : ι → ApPhase) :
    occupancy ApPhase.isIdle phase + occupancy ApPhase.isReleased phase +
      occupancy ApPhase.isStranded phase ≤ Fintype.card ι := by
  rw [← occupancy_isInWfs]
  have split :
      occupancy (fun p : ApPhase => p.isInWfs || p.isStranded) phase =
        occupancy ApPhase.isInWfs phase + occupancy ApPhase.isStranded phase :=
    occupancy_split (by intro p; cases p <;> rfl) phase
  rw [← split]
  exact occupancy_le_card _ _

end Zones

section Barrier

variable {ι : Type} [Fintype ι] [DecidableEq ι] {platform : RlpPlatform ι}
  {start : ι → ApRegisters} {numInWfs trigger : UInt32} {addr : UInt64}
  {counting reading publishing published s compared decided : Rendezvous ι}

/-- The first processor copies the counter: it reads the one and, when the others may have
gone on, stores the other. -/
structure Publishes (platform : RlpPlatform ι)
    (counting publishing published : Rendezvous ι) : Prop where
  reads : counting.bsp = .counting
  moves : ∃ reading, bspStep platform counting = some reading ∧
    Relation.ReflTransGen (Interleaved platform) reading publishing
  stores : (∃ count, publishing.bsp = .publishing count) ∧
    bspStep platform publishing = some published

omit [Fintype ι] in
/-- Until the counter is stored, the value that was read is kept. -/
theorem run_publishing {count : UInt32} (here : reading.bsp = .publishing count)
    (run : Relation.ReflTransGen (Interleaved platform) reading publishing) :
    publishing.bsp = .publishing count ∨ publishing.bsp.hasPublished = true := by
  induction run with
  | refl => exact .inl here
  | tail _ step before =>
    obtain ⟨event, step⟩ := step
    cases event with
    | bsp =>
      rcases before with same | gone
      · rw [rendezvousStep, bspStep, same] at step
        cases step
        exact .inr rfl
      · exact .inr ((bspStep_moves step).published gone)
    | ap i action =>
      obtain ⟨old, new, moves⟩ := apStep_moves step
      rwa [moves.bsp_eq]
    | wakeUp trigger addr =>
      obtain ⟨-, same⟩ := Option.ite_none_right_eq_some.mp step
      cases same
      exact before

omit [Fintype ι] in
theorem Publishes.numInWfs_eq (publishes : Publishes platform counting publishing published) :
    published.numInWfs = counting.apWfsCount ∧ published.phase = publishing.phase ∧
      published.bsp.hasPublished = true := by
  obtain ⟨reads, ⟨reading, read, run⟩, ⟨count, stores⟩, stored⟩ := publishes
  rw [bspStep, reads] at read
  cases read
  rcases run_publishing rfl run with same | gone
  · rw [bspStep, same] at stored
    cases stored
    exact ⟨rfl, rfl, rfl⟩
  · rw [stores] at gone
    cases gone

/-- A step of a processor other than the first. -/
def OtherSteps (platform : RlpPlatform ι) (before after : Rendezvous ι) : Prop :=
  ∃ i action, apStep platform before i action = some after

/-- The test of a shutdown: the first processor reads `num_in_wfs` and, when the others may have
gone on, `ap_wfs_count`. -/
structure TestsBarrier (platform : RlpPlatform ι) (s compared decided : Rendezvous ι) : Prop where
  here : s.bsp = .barrier
  reads : ∃ reading, bspStep platform s = some reading ∧
    Relation.ReflTransGen (OtherSteps platform) reading compared
  decides : bspStep platform compared = some decided

omit [Fintype ι] in
theorem run_others (run : Relation.ReflTransGen (OtherSteps platform) reading compared) :
    compared.bsp = reading.bsp ∧
      Relation.ReflTransGen (Interleaved platform) reading compared := by
  induction run with
  | refl => exact ⟨rfl, .refl⟩
  | tail _ step before =>
      obtain ⟨i, action, step⟩ := step
      obtain ⟨old, new, moves⟩ := apStep_moves step
      exact ⟨moves.bsp_eq.trans before.1, before.2.tail ⟨.ap i action, step⟩⟩

omit [Fintype ι] in
theorem TestsBarrier.passed_iff (tests : TestsBarrier platform s compared decided) :
    decided.bsp = .passed ↔ compared.apWfsCount ≤ s.numInWfs := by
  obtain ⟨here, ⟨reading, first, others⟩, second⟩ := tests
  rw [bspStep, here] at first
  cases first
  have comparing : compared.bsp = .comparing s.numInWfs := (run_others others).1
  rw [bspStep, comparing] at second
  cases second
  by_cases less : s.numInWfs < compared.apWfsCount
  · simp [if_pos less, UInt32.not_le.mpr less]
  · simp [if_neg less, UInt32.not_lt.mp less]

/-- The counter that a shutdown tests is the number of processors that have begun to wait,
changed by what was published with it. -/
theorem toNat_numInWfs (few : Fintype.card ι < 2 ^ 32)
    (run : Relation.ReflTransGen (Interleaved platform)
      (Rendezvous.initial start numInWfs trigger addr) counting)
    (publishes : Publishes platform counting publishing published)
    (later : Relation.ReflTransGen (Interleaved platform) published s) :
    (s.numInWfs.toNat : Int) = (occupancy ApPhase.isInWfs s.phase +
      occupancy ApPhase.isCounted counting.phase -
        occupancy ApPhase.isInWfs published.phase) % 2 ^ 32 := by
  obtain ⟨stored, -, isPublished⟩ := publishes.numInWfs_eq
  have counted := (reachable_consistent few run).counted
  have drifts := run_drifts later ⟨isPublished, counts_drift _ _ _⟩
  rw [drifts.inWfs, stored, counted, UInt32.add_zero]
  exact toNat_drift _ _ _

omit [Fintype ι] in
theorem Publishes.run (publishes : Publishes platform counting publishing published) :
    Relation.ReflTransGen (Interleaved platform) counting published := by
  obtain ⟨reading, read, moves⟩ := publishes.moves
  exact (moves.head ⟨.bsp, read⟩).tail ⟨.bsp, publishes.stores.2⟩

/-- When a shutdown goes on. -/
theorem shutdown_passes_iff (few : Fintype.card ι < 2 ^ 32)
    (run : Relation.ReflTransGen (Interleaved platform)
      (Rendezvous.initial start numInWfs trigger addr) counting)
    (publishes : Publishes platform counting publishing published)
    (later : Relation.ReflTransGen (Interleaved platform) published s)
    (tests : TestsBarrier platform s compared decided) :
    decided.bsp = .passed ↔
      (occupancy ApPhase.isCounted compared.phase : Int) ≤ (occupancy ApPhase.isInWfs s.phase +
        occupancy ApPhase.isCounted counting.phase -
          occupancy ApPhase.isInWfs published.phase) % 2 ^ 32 := by
  obtain ⟨reading, read, others⟩ := tests.reads
  have whole := (((run.trans publishes.run).trans later).tail ⟨.bsp, read⟩).trans
    (run_others others).2
  have wfs := (reachable_consistent few whole).counted.toNat_eq few
  rw [tests.passed_iff, UInt32.le_iff_toNat_le, wfs, ← toNat_numInWfs few run publishes later,
    Int.ofNat_le]

/-- Nobody is between the two counters. -/
def Quiet (s : Rendezvous ι) : Prop :=
  ∀ i, (s.phase i).isOnWay = false ∧ (s.phase i).isReleased = false

instance decidableQuiet (s : Rendezvous ι) : Decidable (Quiet s) :=
  inferInstanceAs (Decidable (∀ i, (s.phase i).isOnWay = false ∧ (s.phase i).isReleased = false))

/-- If nobody was between the counters when they were published, and nobody steps between the two
reads of the test, a shutdown goes on exactly if the processors that are going to wait, with
those that have been turned away since, are no more than those that are leaving. -/
theorem shutdown_passes_quiet_iff (few : Fintype.card ι < 2 ^ 32)
    (run : Relation.ReflTransGen (Interleaved platform)
      (Rendezvous.initial start numInWfs trigger addr) counting)
    (here : counting.bsp = .counting) (quiet : Quiet counting)
    (reads : bspStep platform counting = some publishing)
    (stores : bspStep platform publishing = some published)
    (later : Relation.ReflTransGen (Interleaved platform) published s)
    (tested : s.bsp = .barrier) (first : bspStep platform s = some compared)
    (second : bspStep platform compared = some decided) :
    decided.bsp = .passed ↔
      occupancy ApPhase.isOnWay s.phase + occupancy ApPhase.isStranded s.phase ≤
        occupancy ApPhase.isReleased s.phase + occupancy ApPhase.isStranded counting.phase := by
  have publishes : Publishes platform counting publishing published := by
    refine ⟨here, ⟨publishing, reads, .refl⟩, ⟨counting.apWfsCount, ?_⟩, stores⟩
    rw [bspStep, here] at reads
    cases reads
    rfl
  have samePhase : published.phase = counting.phase := by
    rw [(bspStep_moves stores).phase_eq, (bspStep_moves reads).phase_eq]
  have onWay : occupancy ApPhase.isOnWay counting.phase = 0 :=
    occupancy_eq_zero.mpr fun i => (quiet i).1
  have released : occupancy ApPhase.isReleased counting.phase = 0 :=
    occupancy_eq_zero.mpr fun i => (quiet i).2
  have stranded : occupancy ApPhase.isStranded counting.phase ≤
      occupancy ApPhase.isStranded s.phase := by
    refine occupancy_mono fun i turned => run_stranded later i ?_
    rwa [samePhase]
  have zones := occupancy_zones_le s.phase
  have before := occupancy_isCounted counting.phase
  have beforeIn := occupancy_isInWfs counting.phase
  have now := occupancy_isCounted s.phase
  have nowIn := occupancy_isInWfs s.phase
  have tests : TestsBarrier platform s compared decided :=
    ⟨tested, ⟨compared, first, .refl⟩, second⟩
  have wfs := (reachable_consistent few ((run.trans publishes.run).trans later)).counted.toNat_eq
    few
  have inWfs := toNat_numInWfs few run publishes later
  rw [samePhase] at inWfs
  have same : compared.apWfsCount = s.apWfsCount := by
    rw [bspStep, tested] at first
    cases first
    rfl
  rw [tests.passed_iff, UInt32.le_iff_toNat_le, same, wfs]
  omega

/-- While guests are in use, a shutdown ends with a reset exactly if some processor is still
counted; a processor that has been turned away is counted for ever. -/
theorem teardown_resets_iff (few : Fintype.card ι < 2 ^ 32)
    (run : Relation.ReflTransGen (Interleaved platform)
      (Rendezvous.initial start numInWfs trigger addr) counting)
    (later : Relation.ReflTransGen (Interleaved platform) counting s)
    (here : s.bsp = .closing) (guests : platform.useMwait = false)
    (step : bspStep platform s = some decided) :
    (decided.bsp = .leaving true ↔ ∃ i, (s.phase i).isCounted = true) ∧
      ∀ i, (counting.phase i).isStranded = true → decided.bsp = .leaving true := by
  have wfs := (reachable_consistent few (run.trans later)).counted.toNat_eq few
  have resets : decided.bsp = .leaving true ↔ ∃ i, (s.phase i).isCounted = true := by
    have someone : (∃ i, (s.phase i).isCounted = true) ↔ 0 < s.apWfsCount := by
      rw [UInt32.lt_iff_toNat_lt, UInt32.toNat_zero, wfs, Nat.pos_iff_ne_zero, Ne,
        occupancy_eq_zero]
      simp
    rw [bspStep, here] at step
    cases step
    simp [guests, someone]
  refine ⟨resets, fun i turned => resets.mpr ⟨i, ?_⟩⟩
  have stays := run_stranded later i turned
  generalize s.phase i = p at stays ⊢
  cases p <;> first | rfl | cases stays

end Barrier

section Example

/-- One processor waits in a guest and the other is going to, when the counter is copied. -/
def lateEvents : List (RendezvousEvent (Fin 2)) :=
  [.bsp, .bsp, .ap 0 .join, .ap 1 .join, .ap 0 .count, .ap 1 .count, .ap 0 (.wait true), .bsp, .bsp,
    .bsp, .bsp, .bsp, .bsp]

/-- A shutdown goes on although the other processor has not begun to wait. -/
theorem shutdown_passes_late : ∃ decided : Rendezvous (Fin 2),
    (lateEvents ++ List.replicate 5 RendezvousEvent.bsp).foldlM (rendezvousStep twoRlps)
      (Rendezvous.initial (fun _ => sleepingRegs) 0 0 0) = some decided ∧
    decided.bsp = .passed ∧ (decided.phase 1).isOnWay = true :=
  ⟨_, rfl, (shutdown_passes_iff (by decide)
    (interleaved_of_events (show lateEvents.foldlM (rendezvousStep twoRlps)
      (Rendezvous.initial (fun _ => sleepingRegs) 0 0 0) = some _ from rfl))
    ⟨rfl, ⟨_, rfl, .refl⟩, ⟨_, rfl⟩, rfl⟩
    (interleaved_of_events (show [RendezvousEvent.bsp].foldlM (rendezvousStep twoRlps) _ = some _
      from rfl))
    ⟨rfl, ⟨_, rfl, .refl⟩, rfl⟩).mpr (by decide), rfl⟩

/-- One processor waits in a guest, the virtual machine of the other cannot be set up, and
both counters are about to be copied. -/
def strandedEvents : List (RendezvousEvent (Fin 2)) :=
  [.bsp, .bsp, .ap 0 .join, .ap 1 .join, .ap 0 .count, .ap 1 .count, .ap 0 (.wait true),
    .ap 1 (.wait false), .bsp, .bsp, .bsp, .bsp, .bsp, .bsp]

/-- The kernel starts the processor, and then a shutdown goes on although the other one is
counted. -/
theorem shutdown_passes_quiet_stranded : ∃ decided : Rendezvous (Fin 2),
    (strandedEvents ++ [RendezvousEvent.bsp, .bsp, .ap 0 (.release (.started 0x1000)), .ap 0 .leave,
      .bsp, .bsp, .bsp]).foldlM (rendezvousStep twoRlps)
        (Rendezvous.initial (fun _ => sleepingRegs) 0 0 0) = some decided ∧
    decided.bsp = .passed ∧ (decided.phase 1).isStranded = true :=
  ⟨_, rfl, (shutdown_passes_quiet_iff (by decide)
    (interleaved_of_events (show strandedEvents.foldlM (rendezvousStep twoRlps)
      (Rendezvous.initial (fun _ => sleepingRegs) 0 0 0) = some _ from rfl)) rfl
    (by decide) rfl rfl
    (interleaved_of_events (show [RendezvousEvent.ap 0 (.release (.started 0x1000)),
      .ap 0 .leave, .bsp].foldlM (rendezvousStep twoRlps) _ = some _ from rfl))
    rfl rfl rfl).mpr (by decide), rfl⟩

/-- Both processors are told to leave their guests. -/
def leavingEvents : List (RendezvousEvent (Fin 2)) :=
  lateEvents ++ [.bsp, .bsp, .ap 1 (.wait true), .bsp, .bsp, .bsp, .bsp, .ap 0 (.release .halted),
    .ap 1 (.release .halted), .ap 0 .leave, .bsp]

/-- When they have left, the shutdown ends without a reset. -/
theorem teardown_resets_left : ∃ decided : Rendezvous (Fin 2),
    (leavingEvents ++ [RendezvousEvent.bsp]).foldlM (rendezvousStep twoRlps)
      (Rendezvous.initial (fun _ => sleepingRegs) 0 0 0) = some decided ∧
    ¬ decided.bsp = .leaving true := by
  have run : leavingEvents.foldlM (rendezvousStep twoRlps)
      (Rendezvous.initial (fun _ => sleepingRegs) 0 0 0) = some _ := rfl
  have resets := teardown_resets_iff (by decide) (interleaved_of_events run) .refl rfl rfl rfl
  exact ⟨_, rfl, mt resets.1.mp (by decide)⟩

end Example

end Sable
