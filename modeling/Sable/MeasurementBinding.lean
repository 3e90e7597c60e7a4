import Mathlib.Data.Set.Function
import Sable.Frames
import Sable.MeasurementLog

/-!
# What the measurements determine

The digests extended into PCR 19 determine the byte strings that were measured,
in their order, if SHA-1 is injective on them.  They do not say which of these
strings is a command line, the contents of a module or the string of a module:
an empty string of a module leaves no trace, so that two modules can look like
one module with a string.
-/

namespace Sable

open ByteMemory BigEndian HaltingProgram

/-- The digest passed to `TPM_Extend` for PCR 19. -/
def Event.extension? : Event → Option (Block 20)
  | .extend pcr digest => if pcr = 19 then some digest else none
  | _ => none

def extensions (log : List Event) : List (Block 20) :=
  log.filterMap Event.extension?

section Log

variable {σ : Type} (device : TisDevice σ) (mem : Mem) (before : List (Block 20))

/-- The digests passed to `TPM_Extend` so far. -/
def Extended (done : List (Block 20)) (m : Machine σ) : Prop :=
  m.mem = mem ∧ extensions m.log = before ++ done

theorem tpmExtend_extensions (digest : Block 20) (m : Machine σ) :
    extensions (tpmExtend device 19 digest m).state.log =
      extensions m.log ++ [digest] := by
  have events : CommandEvents fun event => event.extension? = none :=
    ⟨⟨fun _ _ _ => rfl, fun _ _ => rfl⟩, fun _ => rfl, fun _ _ => rfl, fun _ _ => rfl⟩
  obtain ⟨events, log, silent⟩ := ((extendCommand_isCommand 19 digest).respects events :
    Respects False False _ _).log_eq { m with log := m.log ++ [.extend 19 digest] }
  have run : (tpmExtend device 19 digest m).state.log = _ := log
  have none : events.filterMap Event.extension? = [] :=
    List.filterMap_eq_nil_iff.mpr silent
  rw [run, extensions, List.filterMap_append, List.filterMap_append, none]
  simp [extensions, Event.extension?]

theorem extending_extended :
    Extending device False mem (Extended mem before)
      (fun done m => extensions m.log = before ++ done) where
  mem_eq := fun _ _ holds => holds.1
  locals := fun _ _ _ holds => holds
  output := by
    rintro done m bytes ⟨memory, log⟩
    refine ⟨memory, ?_⟩
    rw [← log]
    simp [extensions, Event.extension?]
  stop := fun _ _ holds => holds.2
  extend := by
    rintro done digest m ⟨memory, log⟩
    have extended := tpmExtend_extensions device digest m
    have kept : Prog.Preserves _ (tpmExtend device 19 digest) :=
      tpmExtend_keeps_memory 19 digest
    have kept := kept m
    cases run : tpmExtend device 19 digest m with
    | halt reason reached => exact id
    | ok ret reached =>
        rw [run] at extended kept
        rw [log, List.append_assoc] at extended
        refine ⟨False.elim, fun _ => ⟨?_, extended⟩, fun _ => ⟨[digest], List.prefix_rfl, extended⟩⟩
        exact (congrArg Prod.fst kept).trans memory

/-- The digests that a successful run has passed to `TPM_Extend`. -/
theorem mbiCalcHash_extensions {device} {m reached : Machine σ} {mbi : UInt32}
    (bounded : (configurationAt m.mem mbi).Bounded)
    (run : mbiCalcHash device mbi m = .ok (.ok ()) reached) :
    extensions reached.log =
      extensions m.log ++ (configurationAt m.mem mbi).digests := by
  have start : Extended m.mem (extensions m.log) [] m := ⟨rfl, (List.append_nil _).symm⟩
  obtain ⟨-, all, -⟩ := ((extending_extended device m.mem
    (extensions m.log)).mbiCalcHash_runs bounded False.elim).of_ok start run
  exact (all rfl).2

end Log

/-- A boot configuration on which `mbi_calc_hash` can return success, with the
digests it passes to `TPM_Extend`. -/
def Configuration.Measures (config : Configuration) (digests : List (Block 20)) : Prop :=
  ∃ (σ : Type) (device : TisDevice σ) (mbi : UInt32) (m reached : Machine σ),
    configurationAt m.mem mbi = config ∧
    mbiCalcHash device mbi m = .ok (.ok ()) reached ∧
    extensions reached.log = extensions m.log ++ digests

theorem Configuration.Measures.digests_eq {config : Configuration}
    {digests : List (Block 20)} (measures : config.Measures digests)
    (bounded : config.Bounded) : digests = config.digests := by
  obtain ⟨σ, device, mbi, m, reached, rfl, run, log⟩ := measures
  rw [mbiCalcHash_extensions bounded run] at log
  exact (List.append_cancel_left log).symm

/-- Two configurations that do not differ in what leaves no trace: whether there
is a command line, and which of the modules they both have carry a string. -/
structure Configuration.SameShape (first second : Configuration) : Prop where
  cmdline : first.cmdline.isSome = second.cmdline.isSome
  strings : ∀ (index : Nat) (one other : BootModule), first.modules[index]? = some one →
    second.modules[index]? = some other → (one.string = [] ↔ other.string = [])

theorem modules_eq_of_items {first second : List BootModule}
    (strings : ∀ (index : Nat) (one other : BootModule), first[index]? = some one →
      second[index]? = some other → (one.string = [] ↔ other.string = []))
    (items : first.flatMap BootModule.items = second.flatMap BootModule.items) :
    first = second := by
  induction first generalizing second with
  | nil =>
      cases second with
      | nil => rfl
      | cons other second => simp [BootModule.items] at items
  | cons one first ih =>
      cases second with
      | nil => simp [BootModule.items] at items
      | cons other second =>
          have head := strings 0 one other rfl rfl
          have tail (rest : first.flatMap BootModule.items =
              second.flatMap BootModule.items) : first = second :=
            ih (fun index one other oneAt otherAt =>
              strings (index + 1) one other oneAt otherAt) rest
          obtain ⟨contents, string⟩ := one
          obtain ⟨otherContents, otherString⟩ := other
          simp only [List.flatMap_cons, BootModule.items, List.cons_append,
            List.cons.injEq] at items
          obtain ⟨rfl, rest⟩ := items
          by_cases empty : string = []
          · have otherEmpty : otherString = [] := head.mp empty
            rw [if_pos empty, if_pos otherEmpty] at rest
            rw [empty, otherEmpty, tail rest]
          · have otherFull : otherString ≠ [] := fun none => empty (head.mpr none)
            rw [if_neg empty, if_neg otherFull] at rest
            simp only [List.cons_append, List.nil_append, List.cons.injEq] at rest
            rw [rest.1, tail rest.2]

theorem Configuration.eq_of_items {first second : Configuration}
    (shape : first.SameShape second) (items : first.items = second.items) :
    first = second := by
  obtain ⟨cmdline, modules⟩ := first
  obtain ⟨otherCmdline, otherModules⟩ := second
  obtain ⟨present, strings⟩ := shape
  simp only [Configuration.items] at items
  cases cmdline with
  | none =>
      cases otherCmdline with
      | none =>
          have same : modules = otherModules :=
            modules_eq_of_items strings (by simpa using items)
          rw [same]
      | some text => simp at present
  | some text =>
      cases otherCmdline with
      | none => simp at present
      | some otherText =>
          simp only [Option.toList_some, List.singleton_append, List.cons.injEq] at items
          have same : modules = otherModules := modules_eq_of_items strings items.2
          rw [items.1, same]

/-- Equal digest sequences come from equal sequences of measured byte strings,
and from equal configurations if these have the same shape. -/
theorem measurements_bind {first second : Configuration} {digests : List (Block 20)}
    (measures : first.Measures digests) (otherMeasures : second.Measures digests)
    (bounded : first.Bounded) (otherBounded : second.Bounded)
    (injective : Set.InjOn SecureHash.sha1
      {item | item ∈ first.items ∨ item ∈ second.items}) :
    first.items = second.items ∧ (first.SameShape second → first = second) := by
  have same : first.digests = second.digests :=
    (measures.digests_eq bounded).symm.trans (otherMeasures.digests_eq otherBounded)
  have items : first.items = second.items := by
    apply List.ext_getElem
    · simpa [Configuration.digests] using congrArg List.length same
    · intro index inside otherInside
      apply injective (.inl (List.getElem_mem inside)) (.inr (List.getElem_mem otherInside))
      have digest := congrArg (fun digests => digests[index]?) same
      simpa [Configuration.digests, inside, otherInside] using digest
  exact ⟨items, fun shape => Configuration.eq_of_items shape items⟩

section Example

/-- Two modules without strings. -/
def twoModules : Configuration :=
  ⟨none, [⟨[0x79], []⟩, ⟨[0x79], []⟩]⟩

/-- One module with a string. -/
def oneModule : Configuration :=
  ⟨none, [⟨[0x79], [0x79]⟩]⟩

theorem measures_of_memory {mem : Mem} {mbi : UInt32} (measurable : Measurable mem mbi)
    (bounded : (configurationAt mem mbi).Bounded) :
    (configurationAt mem mbi).Measures (configurationAt mem mbi).digests := by
  let m : Machine (FifoView (Block 20)) :=
    { Machine.blank (FifoView.idle (Block.zero 20)) with mem := mem }
  have idle : pcrTpm.view m.world = FifoView.idle (Block.zero 20) := rfl
  obtain ⟨reached, run⟩ := mbiCalcHash_succeeds pcrTpm_honest pcrTpm_grants rfl idle
    measurable bounded
  exact ⟨_, _, mbi, m, reached, rfl, run, mbiCalcHash_extensions bounded run⟩

/-- The two modules, with their contents in one place. -/
def sharedContents : Mem :=
  memoryOf [(0x1000, 0x08), (0x1014, 2), (0x1019, 0x20), (0x2001, 0x30), (0x2004, 1),
    (0x2005, 0x30), (0x2011, 0x30), (0x2014, 1), (0x2015, 0x30), (0x3000, 0x79)]

/-- The two modules, with the contents of the second elsewhere. -/
def separateContents : Mem :=
  memoryOf [(0x1000, 0x08), (0x1014, 2), (0x1019, 0x20), (0x2001, 0x30), (0x2004, 1),
    (0x2005, 0x30), (0x2011, 0x40), (0x2014, 1), (0x2015, 0x40), (0x3000, 0x79),
    (0x4000, 0x79)]

theorem injOn_of_forall_eq {items : Set (List UInt8)} {item : List UInt8}
    (only : ∀ other ∈ items, other = item) : Set.InjOn SecureHash.sha1 items :=
  fun first firstMember second secondMember _ =>
    (only first firstMember).trans (only second secondMember).symm

theorem sharedContents_twoModules : configurationAt sharedContents 0x1000 = twoModules := by
  decide

theorem separateContents_twoModules :
    configurationAt separateContents 0x1000 = twoModules := by
  decide

theorem sharedContents_measurable : Measurable sharedContents 0x1000 := by
  refine ⟨by decide, by decide, fun _ => by decide, ?_⟩
  have entries : entriesAt sharedContents 0x1000 = [0x2000, 0x2010] := by decide
  rw [entries, List.forall_mem_cons, List.forall_mem_singleton]
  exact ⟨⟨by decide, by decide, by decide⟩, ⟨by decide, by decide, by decide⟩⟩

theorem separateContents_measurable : Measurable separateContents 0x1000 := by
  refine ⟨by decide, by decide, fun _ => by decide, ?_⟩
  have entries : entriesAt separateContents 0x1000 = [0x2000, 0x2010] := by decide
  rw [entries, List.forall_mem_cons, List.forall_mem_singleton]
  exact ⟨⟨by decide, by decide, by decide⟩, ⟨by decide, by decide, by decide⟩⟩

theorem twoModules_bounded : twoModules.Bounded :=
  Configuration.bounded_of_items (by decide)

theorem oneModule_measures :
    oneModule.Measures [SecureHash.sha1 [0x79], SecureHash.sha1 [0x79]] := by
  let mem := memoryOf [(0x1000, 0x08), (0x1014, 1), (0x1019, 0x20), (0x2001, 0x30),
    (0x2004, 1), (0x2005, 0x30), (0x2009, 0x30), (0x3000, 0x79)]
  have config : configurationAt mem 0x1000 = oneModule := by decide
  have measurable : Measurable mem 0x1000 := by
    refine ⟨by decide, by decide, fun _ => by decide, ?_⟩
    have entries : entriesAt mem 0x1000 = [0x2000] := by decide
    rw [entries, List.forall_mem_singleton]
    exact ⟨by decide, by decide, by decide⟩
  have measures := measures_of_memory measurable
    (config ▸ Configuration.bounded_of_items (by decide))
  rw [config] at measures
  exact measures

/-- Different configurations with the same digests. -/
theorem measurements_collide :
    twoModules.Measures [SecureHash.sha1 [0x79], SecureHash.sha1 [0x79]] ∧
      oneModule.Measures [SecureHash.sha1 [0x79], SecureHash.sha1 [0x79]] ∧
      Set.InjOn SecureHash.sha1
        {item | item ∈ twoModules.items ∨ item ∈ oneModule.items} ∧
      twoModules ≠ oneModule := by
  have two := measures_of_memory sharedContents_measurable
    (sharedContents_twoModules ▸ twoModules_bounded)
  rw [sharedContents_twoModules] at two
  refine ⟨two, oneModule_measures, ?_, by decide⟩
  exact injOn_of_forall_eq fun item member => by
    simpa [twoModules, oneModule, Configuration.items, BootModule.items] using member

/-- The configuration is the same wherever its contents lie. -/
theorem measurements_bind_modules :
    (configurationAt sharedContents 0x1000).items =
        (configurationAt separateContents 0x1000).items ∧
      configurationAt sharedContents 0x1000 = configurationAt separateContents 0x1000 := by
  have bounded : (configurationAt sharedContents 0x1000).Bounded :=
    sharedContents_twoModules ▸ twoModules_bounded
  have otherBounded : (configurationAt separateContents 0x1000).Bounded :=
    separateContents_twoModules ▸ twoModules_bounded
  have digests : (configurationAt separateContents 0x1000).digests =
      (configurationAt sharedContents 0x1000).digests := by
    rw [sharedContents_twoModules, separateContents_twoModules]
  obtain ⟨items, binds⟩ := measurements_bind
    (measures_of_memory sharedContents_measurable bounded)
    (digests ▸ measures_of_memory separateContents_measurable otherBounded)
    bounded otherBounded (injOn_of_forall_eq fun item member => by
      simpa [sharedContents_twoModules, separateContents_twoModules, twoModules,
        Configuration.items, BootModule.items] using member)
  refine ⟨items, binds ?_⟩
  rw [sharedContents_twoModules, separateContents_twoModules]
  refine ⟨rfl, fun index one other oneAt otherAt => ?_⟩
  rw [Option.some.inj (oneAt.symm.trans otherAt)]

end Example

end Sable
