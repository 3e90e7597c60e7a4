import Sable.Boot
import Sable.HashContexts

/-!
# Measuring the boot configuration

What `mbi_calc_hash` measures: the command line if there is one, and for each
module its contents and its string unless that is empty.  The walk over the
modules is followed once, for any property of the machine that every extension
of PCR 19 carries forward.
-/

namespace Sable

open ByteMemory BigEndian HaltingProgram

/-- A multiboot module. -/
structure BootModule where
  contents : List UInt8
  string : List UInt8
  deriving DecidableEq

/-- What a boot configuration consists of. -/
structure Configuration where
  cmdline : Option (List UInt8)
  modules : List BootModule
  deriving DecidableEq

/-- The byte strings that are hashed for a module. -/
def BootModule.items (module : BootModule) : List (List UInt8) :=
  module.contents :: if module.string = [] then [] else [module.string]

def Configuration.items (config : Configuration) : List (List UInt8) :=
  config.cmdline.toList ++ config.modules.flatMap BootModule.items

def Configuration.digests (config : Configuration) : List (Block 20) :=
  config.items.map SecureHash.sha1

/-- The command line and the strings stay below the size limit of `sha1`, whose
exception is not looked at for them. -/
structure Configuration.Bounded (config : Configuration) : Prop where
  cmdline : ∀ text ∈ config.cmdline, text.length < 2 ^ 29
  strings : ∀ module ∈ config.modules, module.string.length < 2 ^ 29

theorem Configuration.bounded_of_items {config : Configuration}
    (short : ∀ item ∈ config.items, item.length < 2 ^ 29) : config.Bounded := by
  constructor
  · intro text present
    refine short text (List.mem_append_left _ ?_)
    rw [Option.mem_toList]
    exact present
  · intro module member
    by_cases empty : module.string = []
    · rw [empty]
      simp
    · refine short _ (List.mem_append_right _ (List.mem_flatMap.mpr ⟨module, member, ?_⟩))
      rw [BootModule.items, if_neg empty]
      simp

section Memory

variable (mem : Mem)

/-- The module described by the `struct module` at `entry`. -/
def moduleAt (entry : UInt32) : BootModule :=
  let modStart := load32 mem entry.toNat
  let modEnd := load32 mem (entry.toNat + 4)
  { contents := read mem modStart.toNat (modEnd - modStart).toNat
    string := (cstring mem (load32 mem (entry.toNat + 8))).getD [] }

/-- The addresses of consecutive `struct module` objects. -/
def entriesFrom : Nat → UInt32 → List UInt32
  | 0, _ => []
  | count + 1, entry => entry :: entriesFrom count (entry + 16)

def entriesAt (mbi : UInt32) : List UInt32 :=
  entriesFrom (load32 mem (mbi.toNat + 20)).toNat (load32 mem (mbi.toNat + 24))

/-- The configuration that the multiboot information at `mbi` describes. -/
def configurationAt (mbi : UInt32) : Configuration :=
  { cmdline :=
      if load32 mem mbi.toNat &&& mbiFlagCmdline = 0 then none
      else some ((cstring mem (load32 mem (mbi.toNat + 16))).getD [])
    modules := (entriesAt mem mbi).map (moduleAt mem) }

/-- A module whose measurement does not fail. -/
structure ModuleMeasurable (entry : UInt32) : Prop where
  ordered : load32 mem entry.toNat ≤ load32 mem (entry.toNat + 4)
  small : (moduleAt mem entry).contents.length < 2 ^ 29
  terminated : (cstring mem (load32 mem (entry.toNat + 8))).isSome

/-- Multiboot information whose measurement fails only if the TPM does. -/
structure Measurable (mbi : UInt32) : Prop where
  flag : load32 mem mbi.toNat &&& mbiFlagMods ≠ 0
  nonempty : load32 mem (mbi.toNat + 20) ≠ 0
  terminated : load32 mem mbi.toNat &&& mbiFlagCmdline ≠ 0 →
    (cstring mem (load32 mem (mbi.toNat + 16))).isSome
  modules : ∀ entry ∈ entriesAt mem mbi, ModuleMeasurable mem entry

end Memory

section Walk

variable {σ : Type} {device : TisDevice σ} {ideal : Prop} {mem : Mem}
  {reached stopped : List (Block 20) → Machine σ → Prop}
  {done digests : List (Block 20)}

/-- The outcome of extending PCR 19 by `digests` after `done`: all of them if
there is no exception, and some of them otherwise. -/
def Measured (ideal : Prop) (reached stopped : List (Block 20) → Machine σ → Prop)
    (done digests : List (Block 20)) (exception : Error) (m : Machine σ) : Prop :=
  (ideal → exception = .none) ∧
    (exception = .none → reached (done ++ digests) m) ∧
    (exception ≠ .none → ∃ early, early <+: digests ∧ stopped (done ++ early) m)

/-- A pair of properties that extensions of PCR 19 carry forward: `reached` as
long as they succeed and `stopped` when one fails.  In the case `ideal` they all
succeed. -/
structure Extending (device : TisDevice σ) (ideal : Prop) (mem : Mem)
    (reached stopped : List (Block 20) → Machine σ → Prop) : Prop where
  mem_eq : ∀ done m, reached done m → m.mem = mem
  locals : ∀ done m locals, reached done m → reached done { m with locals := locals }
  output : ∀ done m bytes, reached done m →
    reached done { m with log := m.log ++ [.output bytes] }
  stop : ∀ done m, reached done m → stopped done m
  extend : ∀ done digest, Prog.Runs (¬ ideal) (reached done)
    (tpmExtend device 19 digest)
    (fun ret => Measured ideal reached stopped done [digest] ret.exception)

namespace Measured

theorem nil {m : Machine σ} (holds : reached done m) :
    Measured ideal reached stopped done [] .none m := by
  refine ⟨fun _ => rfl, fun _ => ?_, fun failed => (failed rfl).elim⟩
  rw [List.append_nil]
  exact holds

/-- A failure before the first extension. -/
theorem fail {exception : Error} {m : Machine σ} (real : ¬ ideal)
    (failed : exception ≠ .none) (holds : stopped done m) :
    Measured ideal reached stopped done digests exception m := by
  refine ⟨fun free => (real free).elim, fun none => (failed none).elim, fun _ => ?_⟩
  refine ⟨[], List.nil_prefix, ?_⟩
  rw [List.append_nil]
  exact holds

/-- A failure among the first extensions. -/
theorem left {exception : Error} {m : Machine σ} (failed : exception ≠ .none)
    {more : List (Block 20)}
    (measured : Measured ideal reached stopped done digests exception m) :
    Measured ideal reached stopped done (digests ++ more) exception m := by
  obtain ⟨none, -, early⟩ := measured
  obtain ⟨pre, isPrefix, holds⟩ := early failed
  refine ⟨none, fun success => (failed success).elim, fun _ => ⟨pre, ?_, holds⟩⟩
  exact isPrefix.trans (List.prefix_append digests more)

/-- The outcome of the later extensions is that of all of them. -/
theorem right {exception : Error} {m : Machine σ} {more : List (Block 20)}
    (measured : Measured ideal reached stopped (done ++ digests) more exception m) :
    Measured ideal reached stopped done (digests ++ more) exception m := by
  obtain ⟨none, all, early⟩ := measured
  refine ⟨none, fun success => ?_, fun failed => ?_⟩
  · rw [← List.append_assoc]
    exact all success
  · obtain ⟨pre, isPrefix, holds⟩ := early failed
    refine ⟨digests ++ pre, (List.prefix_append_right_inj digests).mpr isPrefix, ?_⟩
    rw [← List.append_assoc]
    exact holds

end Measured

namespace Extending

variable (extending : Extending device ideal mem reached stopped)

include extending

theorem hashFree (done : List (Block 20)) : HashFree (reached done) :=
  ⟨fun m _ _ holds => extending.locals done m _ holds⟩

/-- Hash a byte string below the size limit and extend PCR 19. -/
theorem extendDigest_runs {bytes : List UInt8} (bounded : bytes.length < 2 ^ 29) :
    Prog.Runs (¬ ideal) (reached done) (extendDigest device bytes)
      (fun ret => Measured ideal reached stopped done [SecureHash.sha1 bytes]
        ret.exception) := by
  have free := extending.hashFree done
  refine Prog.Runs.bind sha1InitLocal_holds.runs fun _ => ?_
  refine Prog.Runs.bind (sha1Local_holds (by omega)).runs fun _ => ?_
  refine Prog.Runs.assume fun _ => ?_
  refine Prog.Runs.bind (Prog.Runs.mono (sha1FinishLocal_holds bounded).runs
    (fun m holds => ⟨holds.1, holds.2 bounded⟩) fun _ _ holds => holds) fun _ => ?_
  exact Prog.Runs.bind_value sctxHash_runs (extending.extend done (SecureHash.sha1 bytes))

theorem loadString_runs {done : List (Block 20)} {ptr : UInt32}
    (terminated : ideal → (cstring mem ptr).isSome) :
    Prog.Runs (¬ ideal) (reached done) (loadString ptr)
      (fun value m => value = (cstring mem ptr).getD [] ∧ reached done m) := by
  intro m holds
  rw [loadString, Prog.bind_get, extending.mem_eq done m holds]
  cases string : cstring mem ptr with
  | none =>
      intro free
      have some := terminated free
      rw [string] at some
      cases some
  | some bytes => exact ⟨rfl, holds⟩

theorem hashModule_runs {entry : UInt32}
    (string : (moduleAt mem entry).string.length < 2 ^ 29)
    (measurable : ideal → ModuleMeasurable mem entry) :
    Prog.Runs (¬ ideal) (reached done) (hashModule device entry)
      (fun ret => Measured ideal reached stopped done
        ((moduleAt mem entry).items.map SecureHash.sha1) ret.exception) := by
  have free := extending.hashFree done
  refine Prog.Runs.bind sha1InitLocal_holds.runs fun _ => ?_
  intro m holds
  rw [Prog.bind_get, extending.mem_eq done m holds.1]
  revert m
  set module := moduleAt mem entry with moduleEq
  have contents : read mem (load32 mem entry.toNat).toNat
      (load32 mem (entry.toNat + 4) - load32 mem entry.toNat).toNat =
        module.contents := rfl
  have short : module.contents.length < 2 ^ 32 := by
    rw [← contents, length_read]
    exact UInt32.toNat_lt _
  rw [contents]
  refine Prog.Runs.ite (fun wrong => ?_) fun _ => ?_
  · refine Prog.Runs.ret fun m holds => Measured.fail ?_ (by simp) (extending.stop _ _ holds.1)
    intro free
    have ordered := (measurable free).ordered
    rw [UInt32.le_iff_toNat_le] at ordered
    rw [UInt32.lt_iff_toNat_lt] at wrong
    omega
  refine Prog.Runs.bind (sha1Local_holds short).runs fun exception => ?_
  refine Prog.Runs.assume fun success => ?_
  refine Prog.Runs.ite (fun failed => ?_) fun passed => ?_
  · refine Prog.Runs.ret fun m holds => Measured.fail ?_ failed (extending.stop _ _ holds.1)
    intro free
    exact failed (success.mpr (measurable free).small)
  have bounded := success.mp (Decidable.of_not_not passed)
  refine Prog.Runs.bind (Prog.Runs.mono (sha1FinishLocal_holds bounded).runs
    (fun m holds => ⟨holds.1, holds.2 bounded⟩) fun _ _ holds => holds) fun _ => ?_
  refine Prog.Runs.bind_value sctxHash_runs ?_
  refine Prog.Runs.bind (extending.extend done _) fun extendRet => ?_
  refine Prog.Runs.ite (fun failed => ?_) fun passed => ?_
  · exact Prog.Runs.ret fun m holds => Measured.left failed holds
  have passed : extendRet.exception = .none := Decidable.of_not_not passed
  refine Prog.Runs.mono (?_ : Prog.Runs (¬ ideal)
    (reached (done ++ [SecureHash.sha1 module.contents])) _ _)
    (fun m holds => holds.2.1 passed) fun _ _ holds => holds
  intro m holds
  rw [Prog.bind_get, extending.mem_eq _ m holds]
  revert m
  refine Prog.Runs.bind_value
    (extending.loadString_runs fun free => (measurable free).terminated) ?_
  have stringEq : (cstring mem (load32 mem (entry.toNat + 8))).getD [] = module.string :=
    rfl
  rw [stringEq]
  refine Prog.Runs.ite (fun empty => ?_) fun nonempty => ?_
  · have items : module.items = [module.contents] := by
      rw [BootModule.items, if_pos (List.length_eq_zero_iff.mp empty)]
    rw [items]
    exact Prog.Runs.ret fun m holds => Measured.right (Measured.nil holds)
  have items : module.items = [module.contents] ++ [module.string] := by
    rw [BootModule.items, if_neg fun none => nonempty (List.length_eq_zero_iff.mpr none)]
    rfl
  rw [items, List.map_append]
  refine Prog.Runs.bind (extending.extendDigest_runs string) fun extendRet => ?_
  refine Prog.Runs.ite (fun failed => ?_) fun passed => ?_
  · exact Prog.Runs.ret fun m holds => Measured.right holds
  · refine Prog.Runs.ret fun m holds => Measured.right ?_
    rw [Decidable.of_not_not passed] at holds
    exact holds

theorem hashModules_runs {count : Nat} {entry : UInt32}
    (strings : ∀ other ∈ entriesFrom count entry,
      (moduleAt mem other).string.length < 2 ^ 29)
    (measurable : ideal → ∀ other ∈ entriesFrom count entry, ModuleMeasurable mem other) :
    Prog.Runs (¬ ideal) (reached done) (hashModules device count entry)
      (fun ret => Measured ideal reached stopped done
        ((((entriesFrom count entry).map (moduleAt mem)).flatMap BootModule.items).map
          SecureHash.sha1) ret.exception) := by
  induction count generalizing done entry with
  | zero => exact Prog.Runs.ret fun m holds => Measured.nil holds
  | succ count ih =>
      simp only [entriesFrom, List.forall_mem_cons] at strings measurable
      simp only [entriesFrom, List.map_cons, List.flatMap_cons, List.map_append]
      refine Prog.Runs.bind (extending.hashModule_runs strings.1
        fun free => (measurable free).1) fun ret => ?_
      refine Prog.Runs.ite (fun failed => ?_) fun passed => ?_
      · exact Prog.Runs.ret fun m holds => Measured.left failed holds
      · have passed : ret.exception = .none := Decidable.of_not_not passed
        refine Prog.Runs.mono (ih strings.2 fun free => (measurable free).2)
          (fun m holds => holds.2.1 passed) fun _ _ holds => Measured.right holds

theorem hashCmdline_runs {mbi : UInt32} (bounded : (configurationAt mem mbi).Bounded)
    (measurable : ideal → Measurable mem mbi) :
    Prog.Runs (¬ ideal) (reached done) (hashCmdline device mbi)
      (fun ret => Measured ideal reached stopped done
        ((configurationAt mem mbi).cmdline.toList.map SecureHash.sha1) ret.exception) := by
  intro m holds
  rw [hashCmdline, Prog.bind_get, extending.mem_eq done m holds]
  revert m
  refine Prog.Runs.ite (fun unset => ?_) fun set => ?_
  · have none : (configurationAt mem mbi).cmdline = none := if_pos unset
    rw [none]
    exact Prog.Runs.ret fun m holds => Measured.nil holds
  have some : (configurationAt mem mbi).cmdline =
      some ((cstring mem (load32 mem (mbi.toNat + 16))).getD []) := if_neg set
  have short := bounded.cmdline _ some
  rw [some]
  refine Prog.Runs.bind_value
    (extending.loadString_runs fun free => (measurable free).terminated set) ?_
  refine Prog.Runs.bind (extending.extendDigest_runs short) fun extendRet => ?_
  refine Prog.Runs.ite (fun failed => ?_) fun passed => ?_
  · exact Prog.Runs.ret fun m holds => holds
  · refine Prog.Runs.ret fun m holds => ?_
    rw [Decidable.of_not_not passed] at holds
    exact holds

/-- The digests that `mbi_calc_hash` extends are those of the configuration. -/
theorem mbiCalcHash_runs {mbi : UInt32} (bounded : (configurationAt mem mbi).Bounded)
    (measurable : ideal → Measurable mem mbi) :
    Prog.Runs (¬ ideal) (reached done) (mbiCalcHash device mbi)
      (fun ret => Measured ideal reached stopped done (configurationAt mem mbi).digests
        ret.exception) := by
  rw [Configuration.digests, Configuration.items, List.map_append]
  refine Prog.Runs.bind (extending.hashCmdline_runs bounded measurable) fun ret => ?_
  refine Prog.Runs.ite (fun failed => ?_) fun passed => ?_
  · exact Prog.Runs.ret fun m holds => Measured.left failed holds
  have passed : ret.exception = .none := Decidable.of_not_not passed
  set first := (configurationAt mem mbi).cmdline.toList.map SecureHash.sha1
  have rest : Prog.Runs (¬ ideal) (reached (done ++ first))
      (do
        if load32 mem mbi.toNat &&& mbiFlagMods = 0 then return .error .badModule ()
        if load32 mem (mbi.toNat + 20) = 0 then return .error .noModule ()
        outDescription "Hashing modules count" (load32 mem (mbi.toNat + 20))
        hashModules device (load32 mem (mbi.toNat + 20)).toNat
          (load32 mem (mbi.toNat + 24)))
      (fun ret => Measured ideal reached stopped (done ++ first)
        (((configurationAt mem mbi).modules.flatMap BootModule.items).map
          SecureHash.sha1) ret.exception) := by
    refine Prog.Runs.ite (fun unset => ?_) fun _ => ?_
    · exact Prog.Runs.ret fun m holds => Measured.fail
        (fun free => (measurable free).flag unset) (by simp) (extending.stop _ _ holds)
    refine Prog.Runs.ite (fun zero => ?_) fun _ => ?_
    · exact Prog.Runs.ret fun m holds => Measured.fail
        (fun free => (measurable free).nonempty zero) (by simp) (extending.stop _ _ holds)
    have shown : Prog.Runs (¬ ideal) (reached (done ++ first))
        (outDescription "Hashing modules count" (load32 mem (mbi.toNat + 20)))
        (fun _ => reached (done ++ first)) :=
      Prog.Runs.modify fun m holds => extending.output _ m _ holds
    refine Prog.Runs.bind shown fun _ => ?_
    refine extending.hashModules_runs (fun other member => ?_)
      fun free => (measurable free).modules
    exact bounded.strings _ (List.mem_map_of_mem member)
  intro m holds
  have holds := holds.2.1 passed
  rw [Prog.bind_get, extending.mem_eq _ m holds]
  exact Prog.Runs.mono rest (fun m holds => holds)
    (fun _ _ holds => Measured.right holds) m holds

end Extending

end Walk

end Sable
