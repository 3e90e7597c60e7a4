import Mathlib.Data.List.Induction
import Sable.LoaderModules

/-!
# The list without its SINIT modules

`remove_txt_modules` goes through the list from its end and leaves the first module alone.
Each module it removes is found by its address again, which is the address of no other module.
-/

namespace Sable

open ByteMemory

namespace Loader

section Contents

variable {mem other : Mem} {base size : UInt32}

theorem getAcmodInfoTable_inside {infoTable : Nat}
    (found : getAcmodInfoTable mem base = some infoTable) :
    infoTable + 48 ≤ (AcmHdr.size mem base * 4).toNat := by
  rw [getAcmodInfoTable] at found
  simp only [Option.ite_none_left_eq_some] at found
  obtain ⟨-, -, room, inside, -, same⟩ := found
  cases same
  have entry : acmInfoTableSize.toNat = 48 := rfl
  have bounded := plusOverflow_eq_false.mp (eq_false_of_ne_true room)
  have order := UInt32.le_iff_toNat_le.mp (UInt32.not_lt.mp inside)
  rw [UInt32.toNat_add, entry] at order
  rw [entry] at bounded
  omega

theorem isAcmod_congr (same : SameImage mem base other base size.toNat) :
    isAcmod other base size = isAcmod mem base size := by
  have limit : acmHdrSize.toNat = 1216 := rfl
  by_cases small : size < acmHdrSize
  · rw [isAcmod, isAcmod, if_pos small, if_pos small]
  · have large := UInt32.le_iff_toNat_le.mp (UInt32.not_lt.mp small)
    have words : AcmHdr.size other base = AcmHdr.size mem base := same.word32 (by omega)
    have moduleType : AcmHdr.moduleType other base = AcmHdr.moduleType mem base :=
      same.word16 (by omega)
    have moduleVendor : AcmHdr.moduleVendor other base = AcmHdr.moduleVendor mem base :=
      same.word32 (by omega)
    have headerLen : AcmHdr.headerLen other base = AcmHdr.headerLen mem base :=
      same.word32 (by omega)
    have scratchSize : AcmHdr.scratchSize other base = AcmHdr.scratchSize mem base :=
      same.word32 (by omega)
    have table : getAcmodInfoTable other base = getAcmodInfoTable mem base := by
      rw [getAcmodInfoTable, getAcmodInfoTable, headerLen, scratchSize, words]
    rw [isAcmod, isAcmod, words, moduleType, moduleVendor, table]
    by_cases whole : size ≠ AcmHdr.size mem base * 4
    · rw [if_pos whole, if_pos whole]
    · cases found : getAcmodInfoTable mem base with
      | none => rfl
      | some infoTable =>
          have inside := getAcmodInfoTable_inside found
          rw [← not_ne_iff.mp whole] at inside
          dsimp only [Option.bind_some]
          rw [same.read (by omega), same (infoTable + 16) (by omega),
            same (infoTable + 17) (by omega)]

/-- Whether a module is a SINIT module depends on its contents only. -/
theorem isSinitAcmod_congr (same : SameImage mem base other base size.toNat) :
    isSinitAcmod other base size = isSinitAcmod mem base size := by
  rw [isSinitAcmod, isSinitAcmod, isAcmod_congr same]

end Contents

section Loop

variable {mem before : Mem} {mbi addr : UInt32} {n : Nat} {first : ModuleT}
  {rest back : List ModuleT}

/-- Whether a module of the list is a SINIT module. -/
def sinit (mem : Mem) (m : ModuleT) : Bool :=
  isSinitAcmod mem m.modStart (m.modEnd - m.modStart)

/-- The contents of a module lie beside the list and the multiboot information. -/
def Apart (mbi addr : UInt32) (n : Nat) (m : ModuleT) : Prop :=
  ∀ k < (m.modEnd - m.modStart).toNat, Elsewhere mbi addr n ((m.modStart.toNat + k) % 2 ^ 32)

/-- Only the list and the multiboot information have changed. -/
def Frame (mbi addr : UInt32) (n : Nat) (before after : Mem) : Prop :=
  ∀ a < 2 ^ 32, Elsewhere mbi addr n a → after a = before a

theorem sinit_frame {m : ModuleT} (apart : Apart mbi addr n m)
    (frame : Frame mbi addr n before mem) :
    sinit mem m = sinit before m := by
  apply isSinitAcmod_congr
  intro k inside
  exact frame _ (Nat.mod_lt _ (by decide)) (apart k inside)

theorem Elsewhere.mono {a less : Nat} (elsewhere : Elsewhere mbi addr n a) (fewer : less ≤ n) :
    Elsewhere mbi addr less a :=
  ⟨elsewhere.info, by have := elsewhere.list; omega⟩

theorem Frame.withoutModule (layout : Layout mbi addr n) {count i : Nat} (fewer : count ≤ n)
    (inside : i < count) (frame : Frame mbi addr n before mem) :
    Frame mbi addr n before (withoutModule mem mbi addr count i) := by
  intro a below elsewhere
  rw [withoutModule_elsewhere (layout.mono fewer) inside below (elsewhere.mono fewer)]
  exact frame a below elsewhere

/-- A module is the first one with its address. -/
theorem findIdx?_modStart {front : List ModuleT} {m : ModuleT}
    (distinct : ((front ++ m :: back).map ModuleT.modStart).Nodup) :
    (front ++ m :: back).findIdx? (fun x => x.modStart = m.modStart) = some front.length := by
  rw [List.map_append, List.map_cons, List.nodup_append] at distinct
  obtain ⟨-, -, apart⟩ := distinct
  have none : front.findIdx? (fun x => x.modStart = m.modStart) = none := by
    rw [List.findIdx?_eq_none_iff]
    intro x member
    exact decide_eq_false (apart _ (List.mem_map_of_mem member) _ List.mem_cons_self)
  rw [List.findIdx?_append, none, List.findIdx?_cons, if_pos (decide_eq_true rfl)]
  simp

theorem getElem?_behind (first : ModuleT) (rest back : List ModuleT) (m : ModuleT) :
    ((first :: rest) ++ m :: back)[rest.length + 1]? = some m := by
  rw [List.cons_append, List.getElem?_cons_succ, List.getElem?_append_right (Nat.le_refl _),
    Nat.sub_self]
  rfl

theorem removeTxtLoop_run (layout : Layout mbi addr n)
    (room : (first :: rest ++ back).length ≤ n)
    (list : ModuleList mem mbi addr (first :: rest ++ back))
    (distinct : ((first :: rest ++ back).map ModuleT.modStart).Nodup)
    (starts : ∀ m ∈ rest, m.modStart ≠ 0) (apart : ∀ m ∈ rest, Apart mbi addr n m)
    (frame : Frame mbi addr n before mem) :
    ∃ reached, removeTxtLoop mbi rest.length mem = (false, reached) ∧
      Frame mbi addr n before reached ∧
      ModuleList reached mbi addr (first :: rest.filter (fun m => !sinit before m) ++ back) := by
  induction rest using List.reverseRecOn generalizing mem back with
  | nil => exact ⟨mem, rfl, frame, list⟩
  | append_singleton rest m ih =>
      have split : first :: (rest ++ [m]) ++ back = (first :: rest) ++ m :: back := by
        simp
      rw [split] at room list distinct
      have inside : rest.length + 1 < ((first :: rest) ++ m :: back).length := by
        rw [List.length_append, List.length_cons, List.length_cons]
        omega
      have here := layout.mono room
      have fields := list.entries _ m (getElem?_behind first rest back m)
      have base : word32 mem (entryAddr addr (rest.length + 1)) 0 = m.modStart :=
        congrArg ModuleT.modStart fields
      have last : word32 mem (entryAddr addr (rest.length + 1)) 4 = m.modEnd :=
        congrArg ModuleT.modEnd fields
      have member : m ∈ rest ++ [m] := List.mem_append_right _ (List.mem_singleton_self m)
      have kind := sinit_frame (apart m member) frame
      have starts' : ∀ x ∈ rest, x.modStart ≠ 0 := fun x found =>
        starts x (List.mem_append_left _ found)
      have apart' : ∀ x ∈ rest, Apart mbi addr n x := fun x found =>
        apart x (List.mem_append_left _ found)
      rw [List.length_append, List.length_singleton, removeTxtLoop,
        getModule_eq here list inside]
      dsimp only
      rw [base, last, List.filter_append]
      by_cases found : sinit before m = true
      · have yes : isSinitAcmod mem m.modStart (m.modEnd - m.modStart) = true := kind.trans found
        have removes := removeModule_found here list (starts m member)
          (findIdx?_modStart distinct)
        have shorter := withoutModule_list here list inside
        have erased : ((first :: rest) ++ m :: back).eraseIdx (rest.length + 1) =
            first :: rest ++ back := by
          rw [List.cons_append, List.eraseIdx_cons_succ,
            List.eraseIdx_append_of_length_le (Nat.le_refl _), Nat.sub_self]
          rfl
        rw [erased] at shorter
        have fewer : (first :: rest ++ back).length ≤ n := by
          rw [List.length_append, List.length_cons] at room ⊢
          rw [List.length_cons] at room
          omega
        have nodup : ((first :: rest ++ back).map ModuleT.modStart).Nodup := by
          rw [← erased]
          exact distinct.sublist ((List.eraseIdx_sublist _ _).map _)
        obtain ⟨reached, run, framed, final⟩ := ih fewer shorter nodup starts' apart'
          (frame.withoutModule layout room inside)
        refine ⟨reached, ?_, framed, ?_⟩
        · rw [if_pos yes, removes]
          dsimp only
          rw [if_neg (starts m member)]
          exact run
        · rw [List.filter_cons_of_neg (by simp [found]), List.filter_nil, List.append_nil]
          exact final
      · have no : ¬ isSinitAcmod mem m.modStart (m.modEnd - m.modStart) = true := fun yes =>
          found (kind.symm.trans yes)
        obtain ⟨reached, run, framed, final⟩ := ih room list distinct starts' apart' frame
        refine ⟨reached, ?_, framed, ?_⟩
        · rw [if_neg no]
          exact run
        · rw [List.filter_cons_of_pos (by simp [found]), List.filter_nil, List.cons_append,
            List.append_assoc]
          exact final

/-- A list without SINIT modules stays as it is. -/
theorem removeTxtLoop_none (layout : Layout mbi addr (first :: rest ++ back).length)
    (list : ModuleList mem mbi addr (first :: rest ++ back))
    (none : ∀ m ∈ rest, sinit mem m = false) :
    removeTxtLoop mbi rest.length mem = (false, mem) := by
  induction rest using List.reverseRecOn generalizing back with
  | nil => rfl
  | append_singleton rest m ih =>
      have split : first :: (rest ++ [m]) ++ back = (first :: rest) ++ m :: back := by
        simp
      rw [split] at layout list
      have member : m ∈ rest ++ [m] := List.mem_append_right _ (List.mem_singleton_self m)
      have inside : rest.length + 1 < ((first :: rest) ++ m :: back).length := by
        rw [List.length_append, List.length_cons, List.length_cons]
        omega
      have fields := list.entries _ m (getElem?_behind first rest back m)
      have base : word32 mem (entryAddr addr (rest.length + 1)) 0 = m.modStart :=
        congrArg ModuleT.modStart fields
      have last : word32 mem (entryAddr addr (rest.length + 1)) 4 = m.modEnd :=
        congrArg ModuleT.modEnd fields
      have other : ¬ isSinitAcmod mem m.modStart (m.modEnd - m.modStart) = true :=
        ne_true_of_eq_false (none m member)
      rw [List.length_append, List.length_singleton, removeTxtLoop, getModule_eq layout list inside]
      dsimp only
      rw [base, last, if_neg other]
      exact ih layout list fun x found => none x (List.mem_append_left _ found)

end Loop

section Modules

variable {mem : Mem} {mbi addr : UInt32} {first : ModuleT} {rest : List ModuleT}

theorem removeTxtModules_eq (layout : Layout mbi addr (first :: rest).length)
    (list : ModuleList mem mbi addr (first :: rest)) :
    removeTxtModules mem mbi = removeTxtLoop mbi rest.length mem := by
  have count := toNat_getModuleCount layout list
  have one : (1 : UInt32).toNat = 1 := rfl
  rw [List.length_cons] at count
  have some : getModuleCount mem mbi ≠ 0 := by
    intro none
    rw [none] at count
    change 0 = _ at count
    omega
  have order : 1 ≤ getModuleCount mem mbi := UInt32.le_iff_toNat_le.mpr (by omega)
  rw [removeTxtModules, if_neg some, UInt32.toNat_sub_of_le _ _ order, count, one,
    Nat.add_sub_cancel]

/-- The first module and all that are no SINIT modules are left, in their order; a second call
does nothing. -/
theorem removeTxtModules_filter (layout : Layout mbi addr (first :: rest).length)
    (list : ModuleList mem mbi addr (first :: rest))
    (distinct : ((first :: rest).map ModuleT.modStart).Nodup)
    (starts : ∀ m ∈ first :: rest, m.modStart ≠ 0)
    (apart : ∀ m ∈ first :: rest, Apart mbi addr (first :: rest).length m) :
    ∃ reached, removeTxtModules mem mbi = (false, reached) ∧
      ModuleList reached mbi addr (first :: rest.filter fun m => !sinit mem m) ∧
      Frame mbi addr (first :: rest).length mem reached ∧
      removeTxtModules reached mbi = (false, reached) := by
  have whole : first :: rest ++ [] = first :: rest := List.append_nil _
  obtain ⟨reached, run, frame, final⟩ := @removeTxtLoop_run mem mem mbi addr
    (first :: rest).length first rest [] layout (Nat.le_of_eq (congrArg List.length whole))
    (by rw [whole]; exact list)
    (by rw [whole]; exact distinct) (fun m member => starts m (List.mem_cons_of_mem _ member))
    (fun m member => apart m (List.mem_cons_of_mem _ member)) (fun _ _ _ => rfl)
  rw [List.append_nil] at final
  have shorter : Layout mbi addr (first :: rest.filter fun m => !sinit mem m).length :=
    layout.mono (Nat.succ_le_succ (List.length_filter_le _ _))
  refine ⟨reached, (removeTxtModules_eq layout list).trans run, final, frame, ?_⟩
  rw [removeTxtModules_eq shorter final]
  refine @removeTxtLoop_none reached mbi addr first (rest.filter fun m => !sinit mem m) []
    (by rw [List.append_nil]; exact shorter) (by rw [List.append_nil]; exact final) ?_
  intro m member
  obtain ⟨inside, kept⟩ := List.mem_filter.mp member
  rw [sinit_frame (apart m (List.mem_cons_of_mem _ inside)) frame]
  simpa using kept

/-- The module list of a loader with a kernel and a SINIT module. -/
def txtModules : List ModuleT :=
  [kernelModule, ⟨0x10000, 0x10500, 0, 0⟩]

def txtMemory : Mem :=
  write sinitModule 0x2000 (moduleBytes kernelModule)

theorem apart_txtModules : ∀ m ∈ txtModules, Apart 0x1000 0x2000 2 m := by
  have info : (0x1000 : UInt32).toNat = 0x1000 := rfl
  have list : (0x2000 : UInt32).toNat = 0x2000 := rfl
  have place {start size k : Nat} (low : 0x3000 ≤ start) (high : start + size ≤ 2 ^ 32)
      (inside : k < size) : Elsewhere 0x1000 0x2000 2 ((start + k) % 2 ^ 32) :=
    ⟨by omega, by omega⟩
  intro m member k inside
  rcases List.mem_cons.mp member with rfl | member
  · exact place (by decide) (by decide) inside
  · obtain rfl := List.mem_singleton.mp member
    exact place (by decide) (by decide) inside

theorem removeTxtModules_filter_txtMemory :
    ∃ reached, removeTxtModules txtMemory 0x1000 = (false, reached) ∧
      ModuleList reached 0x1000 0x2000 [kernelModule] ∧
      Frame 0x1000 0x2000 2 txtMemory reached ∧
      removeTxtModules reached 0x1000 = (false, reached) := by
  have only : [(⟨0x10000, 0x10500, 0, 0⟩ : ModuleT)].filter (fun m => !sinit txtMemory m) = [] := by
    decide +kernel
  have list : ModuleList txtMemory 0x1000 0x2000 txtModules := by
    refine ⟨by decide +kernel, by decide +kernel, ?_⟩
    intro i m found
    match i with
    | 0 =>
      obtain rfl := Option.some.inj found
      decide +kernel
    | 1 =>
      obtain rfl := Option.some.inj found
      decide +kernel
  have removes := removeTxtModules_filter ⟨by decide, by decide, by decide, by decide, by decide⟩
    list (by decide) (by decide) apart_txtModules
  rw [only] at removes
  exact removes

end Modules

end Loader

end Sable
