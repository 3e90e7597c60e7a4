import Sable.Rendezvous

/-!
# The counters of the processors that wait

Whatever the order of the steps, `ap_wfs_count` is the number of processors that have been
counted and not released, those included that are turned away afterwards.  So the first
processor, if it does not time out, goes on when enough of the others have restored their
settings.
-/

namespace Sable

open Occupancy

section Settings

variable {ι : Type} {platform : RlpPlatform ι}

/-- Settings that have been restored; the loop of `ap_wait` sets one more bit. -/
structure Joined (platform : RlpPlatform ι) (before after : ApRegisters) : Prop where
  apicBase : after.apicBase &&& ~~~0xfff = platform.madtApicBase.toUInt64 &&& ~~~0xfff
  msrs : after.msrs = restoreMtrrs (some platform.savedMtrrState) none before.msrs
  miscEnable : after.miscEnable = platform.savedMiscEnable ∨
    after.miscEnable = platform.savedMiscEnable ||| miscEnableMonitorFsm
  smisEnabled : after.smisEnabled = true

theorem apicBase_page (apicBase madtApicbase : UInt64) :
    ((apicBase &&& 0xfff) ||| madtApicbase) &&& ~~~0xfff = madtApicbase &&& ~~~0xfff := by
  apply UInt64.eq_of_toBitVec_eq
  ext k bound
  simp only [UInt64.toBitVec_and, UInt64.toBitVec_or, UInt64.toBitVec_not, BitVec.getElem_and,
    BitVec.getElem_or, BitVec.getElem_not]
  cases (UInt64.toBitVec 0xfff)[k] <;> simp

theorem restoreSettings_joined {before after : ApRegisters}
    (restores : restoreSettings platform before = some after) :
    Joined platform before after := by
  rw [restoreSettings] at restores
  split at restores
  · cases restores
  cases restores
  refine ⟨?_, rfl, .inl rfl, rfl⟩
  dsimp only
  split
  · exact apicBase_page _ _
  · rename_i same
    rw [Decidable.of_not_not same, UInt64.and_assoc, UInt64.and_self]

theorem Joined.monitor {before after : ApRegisters} (joined : Joined platform before after) :
    Joined platform before
      { after with miscEnable := after.miscEnable ||| miscEnableMonitorFsm } := by
  refine ⟨joined.apicBase, joined.msrs, .inr ?_, joined.smisEnabled⟩
  dsimp only
  rcases joined.miscEnable with saved | saved
  · rw [saved]
  · rw [saved, UInt64.or_assoc, UInt64.or_self]

/-- The settings of a processor in a phase, when it has started with the given ones. -/
structure SettledAt (platform : RlpPlatform ι) (before : ApRegisters) (p : ApPhase)
    (regs : ApRegisters) : Prop where
  asleep : p = .asleep → regs = before
  joined : p.hasJoined = true → Joined platform before regs

end Settings

section Steps

variable {ι : Type} [DecidableEq ι] {platform : RlpPlatform ι} {s reached : Rendezvous ι} {i : ι}

/-- What a step of a processor does to its phase, to its settings and to the counters. -/
structure ApMoves (platform : RlpPlatform ι) (s reached : Rendezvous ι) (i : ι)
    (old new : ApPhase) : Prop where
  here : s.phase i = old
  phase_eq : reached.phase = Function.update s.phase i new
  regs_eq : ∀ j, j ≠ i → reached.regs j = s.regs j
  bsp_eq : reached.bsp = s.bsp
  wakeTimeout_eq : reached.wakeTimeout = s.wakeTimeout
  counted : Tallied ApPhase.isCounted old new s.apWfsCount reached.apWfsCount
  inWfs : Tallied ApPhase.isInWfs old new s.numInWfs reached.numInWfs
  stranded : old.isStranded = true → new.isStranded = true
  joined : old.hasJoined = true → new.hasJoined = true
  settled : ∀ before, SettledAt platform before old (s.regs i) →
    SettledAt platform before new (reached.regs i)

theorem joinLaunch_moves (asleep : s.phase i = .asleep) :
    ∃ p, ApMoves platform s (joinLaunch platform s i) i .asleep p := by
  rw [joinLaunch]
  split
  · exact ⟨.refused, asleep, rfl, fun _ _ => rfl, rfl, rfl, .inl ⟨rfl, rfl⟩, .inl ⟨rfl, rfl⟩,
      nofun, nofun, fun _ _ => ⟨nofun, nofun⟩⟩
  split
  · exact ⟨.refused, asleep, rfl, fun _ _ => rfl, rfl, rfl, .inl ⟨rfl, rfl⟩, .inl ⟨rfl, rfl⟩,
      nofun, nofun, fun _ _ => ⟨nofun, nofun⟩⟩
  · rename_i regs restores
    refine ⟨.restored, asleep, rfl, fun _ other => Function.update_of_ne other .., rfl, rfl,
      .inl ⟨rfl, rfl⟩, .inl ⟨rfl, rfl⟩, nofun, nofun, fun before settled => ⟨nofun, fun _ => ?_⟩⟩
    rw [settled.asleep rfl] at restores
    have restored : ((s.setRegs i regs).move i .restored).regs i = regs :=
      Function.update_self ..
    rw [restored]
    exact restoreSettings_joined restores

theorem startWaiting_moves (vmxon : Bool) (counted : s.phase i = .counted) :
    ∃ p, ApMoves platform s (startWaiting platform vmxon s i) i .counted p := by
  rw [startWaiting]
  split
  · exact ⟨.stranded, counted, rfl, fun _ _ => rfl, rfl, rfl, .inl ⟨rfl, rfl⟩, .inl ⟨rfl, rfl⟩,
      nofun, fun _ => rfl, fun _ settled => ⟨nofun, fun _ => settled.joined rfl⟩⟩
  split
  · refine ⟨.waiting, counted, rfl, fun _ other => Function.update_of_ne other .., rfl, rfl,
      .inl ⟨rfl, rfl⟩, .inr (.inl ⟨rfl, rfl, rfl⟩), nofun, fun _ => rfl,
      fun before settled => ⟨nofun, fun _ => ?_⟩⟩
    have changed (regs : ApRegisters) (numInWfs : UInt32) :
        ({ s with
          regs := Function.update s.regs i regs
          numInWfs := numInWfs }.move i .waiting).regs i = regs := Function.update_self ..
    rw [changed]
    exact (settled.joined rfl).monitor
  split
  · exact ⟨.waiting, counted, rfl, fun _ _ => rfl, rfl, rfl, .inl ⟨rfl, rfl⟩,
      .inr (.inl ⟨rfl, rfl, rfl⟩), nofun, fun _ => rfl,
      fun _ settled => ⟨nofun, fun _ => settled.joined rfl⟩⟩
  · exact ⟨.stranded, counted, rfl, fun _ _ => rfl, rfl, rfl, .inl ⟨rfl, rfl⟩, .inl ⟨rfl, rfl⟩,
      nofun, fun _ => rfl, fun _ settled => ⟨nofun, fun _ => settled.joined rfl⟩⟩

theorem apStep_moves {action : ApAction} (step : apStep platform s i action = some reached) :
    ∃ old new, ApMoves platform s reached i old new := by
  cases action with
  | join =>
    obtain ⟨⟨asleep, -⟩, same⟩ := Option.ite_none_right_eq_some.mp step
    cases same
    exact ⟨_, joinLaunch_moves asleep⟩
  | count =>
    obtain ⟨restored, same⟩ := Option.ite_none_right_eq_some.mp step
    cases same
    exact ⟨_, .counted, restored, rfl, fun _ _ => rfl, rfl, rfl, .inr (.inl ⟨rfl, rfl, rfl⟩),
      .inl ⟨rfl, rfl⟩, nofun, fun _ => rfl, fun _ settled => ⟨nofun, fun _ => settled.joined rfl⟩⟩
  | clearTrigger =>
    obtain ⟨returning, same⟩ := Option.ite_none_right_eq_some.mp step
    cases same
    exact ⟨_, .counted, returning, rfl, fun _ _ => rfl, rfl, rfl, .inl ⟨rfl, rfl⟩,
      .inl ⟨rfl, rfl⟩, nofun, fun _ => rfl, fun _ settled => ⟨nofun, fun _ => settled.joined rfl⟩⟩
  | wait vmxon =>
    obtain ⟨counted, same⟩ := Option.ite_none_right_eq_some.mp step
    cases same
    exact ⟨_, startWaiting_moves vmxon counted⟩
  | notice =>
    obtain ⟨⟨waiting, -⟩, same⟩ := Option.ite_none_right_eq_some.mp step
    cases same
    exact ⟨_, .triggered, waiting, rfl, fun _ _ => rfl, rfl, rfl, .inl ⟨rfl, rfl⟩,
      .inl ⟨rfl, rfl⟩, nofun, fun _ => rfl, fun _ settled => ⟨nofun, fun _ => settled.joined rfl⟩⟩
  | release exit =>
    obtain ⟨⟨triggered, -⟩ | ⟨waiting, -⟩, same⟩ := Option.ite_none_right_eq_some.mp step
    · cases same
      exact ⟨_, .released exit, triggered, rfl, fun _ _ => rfl, rfl, rfl,
        .inr (.inr ⟨rfl, rfl, rfl⟩), .inl ⟨rfl, rfl⟩, nofun, fun _ => rfl,
        fun _ settled => ⟨nofun, fun _ => settled.joined rfl⟩⟩
    · cases same
      exact ⟨_, .released exit, waiting, rfl, fun _ _ => rfl, rfl, rfl,
        .inr (.inr ⟨rfl, rfl, rfl⟩), .inl ⟨rfl, rfl⟩, nofun, fun _ => rfl,
        fun _ settled => ⟨nofun, fun _ => settled.joined rfl⟩⟩
  | leave =>
    rw [apStep] at step
    split at step
    · rename_i exit released
      cases step
      exact ⟨_, .gone exit, released, rfl, fun _ _ => rfl, rfl, rfl, .inl ⟨rfl, rfl⟩,
        .inr (.inr ⟨rfl, rfl, rfl⟩), nofun, fun _ => rfl,
        fun _ settled => ⟨nofun, fun _ => settled.joined rfl⟩⟩
    · cases step
  | comeBack =>
    rw [apStep] at step
    split at step
    · rename_i sipiVec gone
      cases step
      exact ⟨_, .returning, gone, rfl, fun _ _ => rfl, rfl, rfl, .inr (.inl ⟨rfl, rfl, rfl⟩),
        .inl ⟨rfl, rfl⟩, nofun, fun _ => rfl,
        fun _ settled => ⟨nofun, fun _ => settled.joined rfl⟩⟩
    · cases step

/-- A step of the first processor, which leaves the others where they are. -/
structure BspMoves (platform : RlpPlatform ι) (s reached : Rendezvous ι) : Prop where
  phase_eq : reached.phase = s.phase
  regs_eq : reached.regs = s.regs
  apWfsCount_eq : reached.apWfsCount = s.apWfsCount
  numInWfs_eq : s.bsp.hasPublished = true → reached.numInWfs = s.numInWfs
  published : s.bsp.hasPublished = true → reached.bsp.hasPublished = true
  wakeTimeout_eq : s.bsp.hasPolled = true →
    reached.wakeTimeout = s.wakeTimeout ∧ reached.bsp.hasPolled = true
  polled : s.bsp.hasPolled = false → reached.bsp.hasPolled = true → 0 < reached.wakeTimeout →
    apWakeupCount platform.numLogicalProcs ≤ s.apWfsCount

omit [DecidableEq ι] in
theorem polling_moves (here : s.bsp = .polling) (step : bspStep platform s = some reached) :
    BspMoves platform s reached := by
  simp only [bspStep, here] at step
  split at step
  · cases step
    exact ⟨rfl, rfl, rfl, by rw [here]; nofun, by rw [here]; nofun, by rw [here]; nofun, nofun⟩
  · rename_i elapsed
    cases step
    refine ⟨rfl, rfl, rfl, by rw [here]; nofun, by rw [here]; nofun, by rw [here]; nofun,
      fun _ _ left => ?_⟩
    rw [Bool.and_eq_true, decide_eq_true_eq, decide_eq_true_eq, not_and'] at elapsed
    exact UInt32.not_lt.mp (elapsed left)

omit [DecidableEq ι] in
theorem bspStep_moves (step : bspStep platform s = some reached) : BspMoves platform s reached := by
  by_cases polling : s.bsp = .polling
  · exact polling_moves polling step
  rw [bspStep] at step
  -- the phases before the counter is published, in their order, and then those behind
  split at step
  iterate 2
    rename_i here
    cases step
    exact ⟨rfl, rfl, by simp only [UInt32.or_zero], by rw [here]; nofun, by rw [here]; nofun,
      by rw [here]; nofun, nofun⟩
  · rename_i here
    exact absurd here polling
  · rename_i bytes here
    split at step <;> cases step <;>
      exact ⟨rfl, rfl, rfl, by rw [here]; nofun, by rw [here]; nofun, fun _ => ⟨rfl, rfl⟩,
        by rw [here]; nofun⟩
  iterate 2
    rename_i here
    cases step
    exact ⟨rfl, rfl, rfl, by rw [here]; nofun, by rw [here]; nofun, fun _ => ⟨rfl, rfl⟩,
      by rw [here]; nofun⟩
  iterate 2
    rename_i here
    cases step
    exact ⟨rfl, rfl, rfl, fun _ => rfl, fun _ => rfl, fun _ => ⟨rfl, rfl⟩, by rw [here]; nofun⟩
  · rename_i numInWfs here
    cases step
    by_cases less : numInWfs < s.apWfsCount
    · simp only [if_pos less]
      exact ⟨rfl, rfl, rfl, fun _ => rfl, fun _ => rfl, fun _ => ⟨rfl, rfl⟩, by rw [here]; nofun⟩
    · simp only [if_neg less]
      exact ⟨rfl, rfl, rfl, fun _ => rfl, fun _ => rfl, fun _ => ⟨rfl, rfl⟩, by rw [here]; nofun⟩
  · rename_i here
    split at step
    · cases step
      exact ⟨rfl, rfl, rfl, fun _ => rfl, fun _ => rfl, fun _ => ⟨rfl, rfl⟩, by rw [here]; nofun⟩
    · split at step <;> cases step <;>
        exact ⟨rfl, rfl, by simp only [UInt32.or_zero], fun _ => rfl, fun _ => rfl,
          fun _ => ⟨rfl, rfl⟩, by rw [here]; nofun⟩
  · rename_i here
    dsimp only at step
    split at step
    · cases step
      exact ⟨rfl, rfl, rfl, fun _ => rfl, fun published => published,
        fun polled => ⟨rfl, polled⟩, by rw [here]; nofun⟩
    · cases step
      exact ⟨rfl, rfl, rfl, fun _ => rfl, fun _ => rfl, fun _ => ⟨rfl, rfl⟩, by rw [here]; nofun⟩
  iterate 2
    rename_i here
    cases step
    exact ⟨rfl, rfl, rfl, fun _ => rfl, fun _ => rfl, fun _ => ⟨rfl, rfl⟩, by rw [here]; nofun⟩
  · cases step

end Steps

section Runs

variable {ι : Type} [Fintype ι] [DecidableEq ι] {platform : RlpPlatform ι}
  {s reached : Rendezvous ι} {start : ι → ApRegisters}

/-- What holds in every state of a run. -/
structure Consistent (platform : RlpPlatform ι) (start : ι → ApRegisters) (s : Rendezvous ι) :
    Prop where
  counted : Counts ApPhase.isCounted s.phase s.apWfsCount 0
  settled : ∀ i, SettledAt platform (start i) (s.phase i) (s.regs i)
  woken : s.bsp.hasPolled = true → 0 < s.wakeTimeout →
    (apWakeupCount platform.numLogicalProcs).toNat ≤ occupancy ApPhase.hasJoined s.phase

theorem isCounted_joined : ∀ p : ApPhase, p.isCounted = true → p.hasJoined = true := by
  intro p counted
  cases p <;> first | rfl | cases counted

omit [DecidableEq ι] in
theorem initial_consistent (numInWfs trigger : UInt32) (addr : UInt64) :
    Consistent platform start (Rendezvous.initial start numInWfs trigger addr) := by
  refine ⟨?_, fun _ => ⟨fun _ => rfl, nofun⟩, nofun⟩
  have empty : occupancy ApPhase.isCounted (fun _ : ι => ApPhase.asleep) = 0 :=
    occupancy_eq_zero.mpr fun _ => rfl
  rw [Counts, Rendezvous.initial, empty]
  rfl

theorem ApMoves.consistent {i : ι} {old new : ApPhase}
    (moves : ApMoves platform s reached i old new)
    (consistent : Consistent platform start s) : Consistent platform start reached := by
  have here := moves.here
  subst here
  refine ⟨?_, fun j => ?_, fun polled left => ?_⟩
  · rw [moves.phase_eq]
    exact consistent.counted.tallied moves.counted
  · rw [moves.phase_eq]
    by_cases same : j = i
    · subst same
      rw [Function.update_self]
      exact moves.settled _ (consistent.settled j)
    · rw [Function.update_of_ne same, moves.regs_eq j same]
      exact consistent.settled j
  · rw [moves.bsp_eq] at polled
    rw [moves.wakeTimeout_eq] at left
    refine (consistent.woken polled left).trans (occupancy_mono fun j joined => ?_)
    rw [moves.phase_eq]
    by_cases same : j = i
    · subst same
      rw [Function.update_self]
      exact moves.joined joined
    · rw [Function.update_of_ne same]
      exact joined

omit [DecidableEq ι] in
theorem BspMoves.consistent (few : Fintype.card ι < 2 ^ 32)
    (moves : BspMoves platform s reached) (consistent : Consistent platform start s) :
    Consistent platform start reached := by
  refine ⟨?_, ?_, fun polled left => ?_⟩
  · rw [moves.phase_eq, moves.apWfsCount_eq]
    exact consistent.counted
  · rw [moves.phase_eq, moves.regs_eq]
    exact consistent.settled
  · rw [moves.phase_eq]
    cases before : s.bsp.hasPolled with
    | true =>
      rw [(moves.wakeTimeout_eq before).1] at left
      exact consistent.woken before left
    | false =>
      -- the loop has just ended, and the others are still where they were counted
      have enough := UInt32.le_iff_toNat_le.mp (moves.polled before polled left)
      rw [consistent.counted.toNat_eq few] at enough
      exact enough.trans (occupancy_mono fun i => isCounted_joined _)

theorem Interleaved.consistent (few : Fintype.card ι < 2 ^ 32)
    (step : Interleaved platform s reached) (consistent : Consistent platform start s) :
    Consistent platform start reached := by
  obtain ⟨event, step⟩ := step
  cases event with
  | bsp => exact (bspStep_moves step).consistent few consistent
  | ap i action =>
    obtain ⟨old, new, moves⟩ := apStep_moves step
    exact moves.consistent consistent
  | wakeUp trigger addr =>
    obtain ⟨-, same⟩ := Option.ite_none_right_eq_some.mp step
    cases same
    exact ⟨consistent.counted, consistent.settled, consistent.woken⟩

theorem reachable_consistent (few : Fintype.card ι < 2 ^ 32) {numInWfs trigger : UInt32}
    {addr : UInt64} (run : Relation.ReflTransGen (Interleaved platform)
      (Rendezvous.initial start numInWfs trigger addr) s) : Consistent platform start s := by
  induction run with
  | refl => exact initial_consistent ..
  | tail _ step consistent => exact step.consistent few consistent

/-- In every interleaving, `ap_wfs_count` is the number of processors that have been counted
and not released; when the first processor has stopped waiting before its time is up, as many
processors as it waits for have restored their settings. -/
theorem reachable_woken (few : Fintype.card ι < 2 ^ 32) {numInWfs trigger : UInt32}
    {addr : UInt64} (run : Relation.ReflTransGen (Interleaved platform)
      (Rendezvous.initial start numInWfs trigger addr) s) :
    s.apWfsCount.toNat = occupancy ApPhase.isCounted s.phase ∧
    (s.bsp.hasPolled = true → 0 < s.wakeTimeout → ∃ joined : Finset ι,
      (apWakeupCount platform.numLogicalProcs).toNat ≤ joined.card ∧
      ∀ i ∈ joined, Joined platform (start i) (s.regs i)) := by
  have consistent := reachable_consistent few run
  refine ⟨consistent.counted.toNat_eq few, fun polled left => ?_⟩
  refine ⟨Finset.univ.filter fun i => (s.phase i).hasJoined = true, ?_, fun i member => ?_⟩
  · rw [← occupancy_eq_card]
    exact consistent.woken polled left
  · exact (consistent.settled i).joined (Finset.mem_filter.mp member).2

omit [Fintype ι] in
/-- The states along a list of events. -/
theorem interleaved_of_events {events : List (RendezvousEvent ι)}
    (run : events.foldlM (rendezvousStep platform) s = some reached) :
    Relation.ReflTransGen (Interleaved platform) s reached := by
  induction events generalizing s with
  | nil =>
    cases run
    exact .refl
  | cons event events ih =>
    rw [List.foldlM_cons] at run
    obtain ⟨next, step, rest⟩ := Option.bind_eq_some_iff.mp run
    exact .head ⟨event, step⟩ (ih rest)

end Runs

section Example

/-- Two processors beside the first one, and three in the data of the BIOS. -/
def twoRlps : RlpPlatform (Fin 2) where
  initialApicId := fun i => UInt32.ofNat i + 1
  apicId := fun i => UInt32.ofNat i + 1
  useMwait := false
  madtApicBase := 0xfee00000
  savedMtrrState := ⟨0xc06, []⟩
  savedMiscEnable := 0x40000
  numLogicalProcs := 3
  senterDone := true

def sleepingRegs : ApRegisters where
  apicBase := 0xfee00800
  msrs := ⟨0, 0, fun _ => ⟨0, 0⟩⟩
  miscEnable := 0
  smisEnabled := false

/-- The first processor goes on when both others have been counted. -/
theorem reachable_woken_two : ∃ s : Rendezvous (Fin 2), s.bsp = .scrubbing 0 ∧
    s.apWfsCount.toNat = occupancy ApPhase.isCounted s.phase ∧
    ∃ joined : Finset (Fin 2), (apWakeupCount 3).toNat ≤ joined.card ∧
      ∀ i ∈ joined, Joined twoRlps sleepingRegs (s.regs i) := by
  let events : List (RendezvousEvent (Fin 2)) :=
    [.bsp, .bsp, .bsp, .ap 0 .join, .ap 1 .join, .ap 1 .count, .ap 1 (.wait true), .ap 0 .count,
      .bsp]
  have ends : ((events.foldlM (rendezvousStep twoRlps)
      (Rendezvous.initial (fun _ => sleepingRegs) 0 0 0)).map
        fun s => (s.bsp, s.wakeTimeout)) = some (.scrubbing 0, 0xffffffe) := rfl
  obtain ⟨s, run, same⟩ := Option.map_eq_some_iff.mp ends
  obtain ⟨polled, left⟩ := Prod.mk.inj same
  have woken := reachable_woken (by decide) (interleaved_of_events run)
  exact ⟨s, polled, woken.1, woken.2 (by rw [polled]; rfl) (by rw [left]; decide)⟩

end Example

end Sable
