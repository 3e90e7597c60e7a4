import Sable.LaunchPrerequisites
import Sable.MeasurementBinding
import Sable.TxtModules

/-!
# The images that `launch_kernel` starts

`launch_kernel` takes the SINIT modules out of the module list, starts the first module with its
string as the command line, and passes the module behind it as the initrd.  The modules that it
chooses are modules that `mbi_calc_hash` has measured, if their bytes have not changed since.
-/

namespace Sable

open ByteMemory BigEndian HaltingProgram

namespace Loader

section Model

/-- The arguments of `expand_linux_image`. -/
structure LaunchedImages where
  kernelImage : UInt32
  kernelSize : UInt32
  initrdImage : UInt32
  initrdSize : UInt32

def removeFirstModule (mem : Mem) (mbi : UInt32) : UInt32 × Mem :=
  if mbi = 0 then (0, mem) else removeModule mem mbi 0

/-- The steps of `launch_kernel` before `expand_linux_image`. -/
def launchImages (mem : Mem) (mbi : UInt32) : Option LaunchedImages × Mem :=
  let mem := (removeTxtModules mem mbi).2
  let m := getModule mem mbi 0
  let kernelSize := word32 mem m 4 - word32 mem m 0
  let (kernelImage, mem) := removeFirstModule mem mbi
  if kernelImage = 0 then (none, mem)
  else if getModuleCount mem mbi = 0 then (some ⟨kernelImage, kernelSize, 0, 0⟩, mem)
  else
    let m := getModule mem mbi 0
    (some ⟨kernelImage, kernelSize, word32 mem m 0, word32 mem m 4 - word32 mem m 0⟩, mem)

end Model

section First

variable {mem other : Mem} {mbi addr : UInt32} {first : ModuleT} {rest modules : List ModuleT}
  {n : Nat}

/-- Memory when the string of a module has become the command line. -/
def withCommandLine (mem : Mem) (mbi string : UInt32) : Mem :=
  let mem := storeWord mem (mbi + 16) string
  storeWord mem mbi (word32 mem mbi 0 ||| 0x4)

theorem withCommandLine_outside (layout : Layout mbi addr n) {string : UInt32} {a : Nat}
    (below : a < 2 ^ 32) (flags : a < mbi.toNat ∨ mbi.toNat + 4 ≤ a)
    (cmdline : a < mbi.toNat + 16 ∨ mbi.toNat + 20 ≤ a) :
    withCommandLine mem mbi string a = mem a := by
  have fits := layout.infoFits
  have offset : (16 : UInt32).toNat = 16 := rfl
  have place : (mbi + 16).toNat = mbi.toNat + 16 := by
    rw [UInt32.toNat_add, offset, Nat.mod_eq_of_lt (by omega)]
  rw [withCommandLine, storeWord_outside (by omega) below flags,
    storeWord_outside (by omega) below (by omega)]

/-- A change that leaves the list and its fields in the multiboot information alone. -/
theorem ModuleList.of_same (layout : Layout mbi addr modules.length)
    (list : ModuleList mem mbi addr modules)
    (fields : ∀ a, mbi.toNat + 20 ≤ a → a < mbi.toNat + 28 → other a = mem a)
    (entries : ∀ a, addr.toNat ≤ a → a < addr.toNat + 16 * modules.length → other a = mem a) :
    ModuleList other mbi addr modules := by
  have info := layout.infoFits
  have fits := layout.listFits
  have field (offset : UInt32) (k : Nat) (same : offset.toNat = k) (lower : 20 ≤ k)
      (upper : k + 4 ≤ 28) : word32 other mbi k = word32 mem mbi k := by
    have place : (mbi + offset).toNat = mbi.toNat + k := by
      rw [UInt32.toNat_add, same, Nat.mod_eq_of_lt (by omega)]
    have image : SameImage mem (mbi + offset) other (mbi + offset) 4 :=
      sameImage_of_bytes (by omega) (by omega) fun i small => fields _ (by omega) (by omega)
    rw [word32_at offset k same, word32_at offset k same, image.word32 (by decide)]
  refine ⟨(field 20 20 rfl (by omega) (by omega)).trans list.count,
    (field 24 24 rfl (by omega) (by omega)).trans list.start, fun i m found => ?_⟩
  have inside := (List.getElem?_eq_some_iff.mp found).1
  have place := toNat_entryAddr layout inside
  have image : SameImage mem (entryAddr addr i) other (entryAddr addr i) 16 :=
    sameImage_of_bytes (by omega) (by omega) fun k small => entries _ (by omega) (by omega)
  exact (moduleAt_image image).trans (list.entries i m found)

theorem withCommandLine_list (layout : Layout mbi addr modules.length)
    (list : ModuleList mem mbi addr modules) (string : UInt32) :
    ModuleList (withCommandLine mem mbi string) mbi addr modules := by
  have info := layout.infoFits
  have fits := layout.listFits
  have apart := layout.apart
  exact list.of_same layout
    (fun a lower upper => withCommandLine_outside layout (by omega) (by omega) (by omega))
    fun a lower upper => withCommandLine_outside layout (by omega) (by omega) (by omega)

/-- The number of modules is the same while the modules are copied down. -/
theorem moved_count (layout : Layout mbi addr n) {i : Nat} (inside : i < n) :
    word32 (moved mem (addr.toNat + 16 * i) (addr.toNat + 16 * (i + 1)) 0 (16 * (n - i - 1)))
      mbi 20 = word32 mem mbi 20 := by
  have info := layout.infoFits
  have apart := layout.apart
  have place := toNat_count layout
  have image : SameImage mem (mbi + 20) (moved mem (addr.toNat + 16 * i)
      (addr.toNat + 16 * (i + 1)) 0 (16 * (n - i - 1))) (mbi + 20) 4 :=
    sameImage_of_bytes (by omega) (by omega) fun k small => moved_outside (by omega)
  rw [word32_at 20 20 rfl, image.word32 (by decide), word32_at 20 20 rfl]

/-- The first module is removed, and its string becomes the command line. -/
theorem removeModule_first (layout : Layout mbi addr (first :: rest).length)
    (list : ModuleList mem mbi addr (first :: rest)) :
    removeModule mem mbi 0 = (first.modStart,
      withoutModule (withCommandLine mem mbi first.string) mbi addr (first :: rest).length 0) := by
  have inside : 0 < (first :: rest).length := Nat.succ_pos _
  have valid := verifyLoaderContext_eq layout list inside
  have entry : getModule mem mbi 0 = entryAddr addr 0 := getModule_eq layout list inside
  have search : findModule mem mbi 0 (first :: rest).length 0 0 = (0, entryAddr addr 0) := by
    rw [List.length_cons, findModule, if_pos (.inl rfl), entry]
  have string : word32 mem (entryAddr addr 0) 8 = first.string :=
    congrArg ModuleT.string (list.entries 0 first rfl)
  have commanded := withCommandLine_list layout list first.string
  have copied := @memcpy_entries (withCommandLine mem mbi first.string) mbi addr
    (first :: rest).length 0 layout inside
  have count := @moved_count (withCommandLine mem mbi first.string) mbi addr
    (first :: rest).length layout 0 inside
  rw [removeModule, if_neg (not_not_intro valid), toNat_getModuleCount layout list, search]
  dsimp only
  rw [if_neg (entryAddr_ne_zero layout inside), if_pos rfl, string]
  dsimp only
  rw [← withCommandLine, commanded.modStart rfl, commanded.count]
  change (first.modStart, storeWord (memcpy _ _ _ ((_ - UInt32.ofNat 0 - 1) * 16)).2 _
    (word32 (memcpy _ _ _ ((_ - UInt32.ofNat 0 - 1) * 16)).2 mbi 20 - 1)) = _
  rw [copied, count, commanded.count, withoutModule]

theorem withCommandLine_word (layout : Layout mbi addr n) (string : UInt32) :
    word32 (withCommandLine mem mbi string) mbi 16 = string := by
  have info := layout.infoFits
  have offset : (16 : UInt32).toNat = 16 := rfl
  have place : (mbi + 16).toNat = mbi.toNat + 16 := by
    rw [UInt32.toNat_add, offset, Nat.mod_eq_of_lt (by omega)]
  have image : SameImage (storeWord mem (mbi + 16) string) (mbi + 16)
      (withCommandLine mem mbi string) (mbi + 16) 4 :=
    sameImage_of_bytes (by omega) (by omega) fun k small =>
      storeWord_outside (by omega) (by omega) (by omega)
  rw [word32_at 16 16 rfl, image.word32 (by decide), word32_storeWord]

theorem withCommandLine_flag (mem : Mem) (mbi string : UInt32) :
    word32 (withCommandLine mem mbi string) mbi 0 &&& 0x4 ≠ 0 := by
  rw [withCommandLine, word32_storeWord, or_and_self]
  decide

/-- The images that are launched for a kernel and the modules behind it. -/
def imagesOf (first : ModuleT) (modules : List ModuleT) : LaunchedImages :=
  ⟨first.modStart, first.modEnd - first.modStart, (modules.head?.map ModuleT.modStart).getD 0,
    (modules.head?.map fun m => m.modEnd - m.modStart).getD 0⟩

theorem Frame.withCommandLine (layout : Layout mbi addr n) {before : Mem} {string : UInt32}
    (frame : Frame mbi addr n before mem) :
    Frame mbi addr n before (withCommandLine mem mbi string) := by
  intro a below elsewhere
  have info := elsewhere.info
  rw [withCommandLine_outside layout below (by omega) (by omega)]
  exact frame a below elsewhere

/-- Memory when the first module of a list has been removed. -/
def withoutFirst (mem : Mem) (mbi addr : UInt32) (first : ModuleT) (rest : List ModuleT) : Mem :=
  withoutModule (withCommandLine mem mbi first.string) mbi addr (first :: rest).length 0

theorem withoutFirst_list (layout : Layout mbi addr (first :: rest).length)
    (list : ModuleList mem mbi addr (first :: rest)) :
    ModuleList (withoutFirst mem mbi addr first rest) mbi addr rest :=
  withoutModule_list layout (withCommandLine_list layout list first.string) (Nat.succ_pos _)

theorem withoutFirst_word (layout : Layout mbi addr (first :: rest).length) (offset : UInt32)
    (k : Nat) (same : offset.toNat = k) (front : k ≤ 16) :
    word32 (withoutFirst mem mbi addr first rest) mbi k =
      word32 (withCommandLine mem mbi first.string) mbi k := by
  have info := layout.infoFits
  have fits := layout.listFits
  have apart := layout.apart
  have place : (mbi + offset).toNat = mbi.toNat + k := by
    rw [UInt32.toNat_add, same, Nat.mod_eq_of_lt (by omega)]
  have image : SameImage (withCommandLine mem mbi first.string) (mbi + offset)
      (withoutFirst mem mbi addr first rest) (mbi + offset) 4 :=
    sameImage_of_bytes (by omega) (by omega) fun i small =>
      withoutModule_outside layout (by omega) (by omega) (by omega)
  rw [word32_at offset k same, image.word32 (by decide), word32_at offset k same]

/-- The images after the SINIT modules have been removed. -/
theorem launchImages_list {start : Mem}
    (layout : Layout mbi addr (first :: rest).length)
    (list : ModuleList mem mbi addr (first :: rest)) (some : first.modStart ≠ 0)
    (removed : removeTxtModules start mbi = (false, mem)) :
    launchImages start mbi =
      (Option.some (imagesOf first rest), withoutFirst mem mbi addr first rest) := by
  have inside : 0 < (first :: rest).length := Nat.succ_pos _
  have entry : getModule mem mbi 0 = entryAddr addr 0 := getModule_eq layout list inside
  have last : word32 mem (entryAddr addr 0) 4 = first.modEnd :=
    congrArg ModuleT.modEnd (list.entries 0 first rfl)
  have removes : removeFirstModule mem mbi =
      (first.modStart, withoutFirst mem mbi addr first rest) := by
    rw [removeFirstModule, if_neg layout.present, removeModule_first layout list, withoutFirst]
  have shorter := layout.mono (Nat.le_succ rest.length)
  have left := withoutFirst_list layout list
  rw [launchImages, removed]
  dsimp only
  rw [removes, entry, list.modStart rfl, last]
  dsimp only
  rw [if_neg some]
  cases rest with
  | nil =>
      have none : getModuleCount (withoutFirst mem mbi addr first []) mbi = 0 :=
        getModuleCount_eq shorter left
      rw [if_pos none]
      rfl
  | cons second rest =>
      have count := toNat_getModuleCount shorter left
      have filled : getModuleCount (withoutFirst mem mbi addr first (second :: rest)) mbi ≠ 0 := by
        intro none
        rw [none, List.length_cons] at count
        change 0 = _ at count
        omega
      have entry : getModule (withoutFirst mem mbi addr first (second :: rest)) mbi 0 =
          entryAddr addr 0 := getModule_eq shorter left (Nat.succ_pos _)
      have last : word32 (withoutFirst mem mbi addr first (second :: rest)) (entryAddr addr 0) 4 =
          second.modEnd := congrArg ModuleT.modEnd (left.entries 0 second rfl)
      rw [if_neg filled, entry, left.modStart rfl, last]
      rfl

/-- The first module becomes the kernel, with its string as the command line.  The initrd is the
first of the other modules that is no SINIT module. -/
theorem launchImages_eq (layout : Layout mbi addr (first :: rest).length)
    (list : ModuleList mem mbi addr (first :: rest))
    (distinct : ((first :: rest).map ModuleT.modStart).Nodup)
    (starts : ∀ m ∈ first :: rest, m.modStart ≠ 0)
    (apart : ∀ m ∈ first :: rest, Apart mbi addr (first :: rest).length m) :
    ∃ reached, launchImages mem mbi =
        (some (imagesOf first (rest.filter fun m => !sinit mem m)), reached) ∧
      ModuleList reached mbi addr (rest.filter fun m => !sinit mem m) ∧
      word32 reached mbi 16 = first.string ∧ word32 reached mbi 0 &&& 0x4 ≠ 0 ∧
      Frame mbi addr (first :: rest).length mem reached := by
  have whole : first :: rest ++ [] = first :: rest := List.append_nil _
  obtain ⟨cleared, run, frame, kept⟩ := @removeTxtLoop_run mem mem mbi addr
    (first :: rest).length first rest [] layout (Nat.le_of_eq (congrArg List.length whole))
    (by rw [whole]; exact list)
    (by rw [whole]; exact distinct) (fun m member => starts m (List.mem_cons_of_mem _ member))
    (fun m member => apart m (List.mem_cons_of_mem _ member)) (fun _ _ _ => rfl)
  rw [List.append_nil] at kept
  have fewer := Nat.succ_le_succ (List.length_filter_le (fun m => !sinit mem m) rest)
  have shorter := layout.mono fewer
  refine ⟨_, launchImages_list shorter kept (starts first List.mem_cons_self)
    ((removeTxtModules_eq layout list).trans run), withoutFirst_list shorter kept, ?_, ?_, ?_⟩
  · rw [withoutFirst_word shorter 16 16 rfl (Nat.le_refl _), withCommandLine_word shorter]
  · rw [withoutFirst_word shorter 0 0 rfl (by decide)]
    exact withCommandLine_flag _ _ _
  · exact (frame.withCommandLine layout).withoutModule layout fewer (Nat.succ_pos _)

end First

end Loader

section Ordered

variable {σ : Type} {device : TisDevice σ} {mem : Mem}
  {reached stopped : List (Block 20) → Machine σ → Prop} {done : List (Block 20)} {entry : UInt32}
  {count : Nat}

/-- The module at an address does not end before it starts. -/
def OrderedAt (mem : Mem) (entry : UInt32) : Prop :=
  load32 mem entry.toNat ≤ load32 mem (entry.toNat + 4)

namespace Extending

variable (extending : Extending device False mem reached stopped)

include extending

theorem hashModule_ordered :
    Prog.Runs True (reached done) (hashModule device entry)
      fun ret _ => ret.exception = .none → OrderedAt mem entry := by
  have free := extending.hashFree done
  refine Prog.Runs.bind sha1InitLocal_holds.runs fun _ => ?_
  intro m holds
  rw [Prog.bind_get, extending.mem_eq done m holds.1]
  revert m
  refine Prog.Runs.ite (fun wrong => ?_) fun right => ?_
  · exact Prog.Runs.ret fun m holds failed => nomatch failed
  · exact Prog.Runs.any.mono (fun _ _ => trivial) fun _ _ _ _ => UInt32.not_lt.mp right

theorem hashModules_ordered
    (strings : ∀ other ∈ entriesFrom count entry, (moduleAt mem other).string.length < 2 ^ 29) :
    Prog.Runs True (reached done) (hashModules device count entry)
      fun ret _ => ret.exception = .none →
        ∀ other ∈ entriesFrom count entry, OrderedAt mem other := by
  induction count generalizing done entry with
  | zero => exact Prog.Runs.ret fun _ _ _ other member => nomatch member
  | succ count ih =>
      simp only [entriesFrom, List.forall_mem_cons] at strings ⊢
      refine Prog.Runs.bind ((extending.hashModule_runs strings.1 False.elim).both
        extending.hashModule_ordered) fun ret => ?_
      refine Prog.Runs.ite (fun failed => ?_) fun passed => ?_
      · exact Prog.Runs.ret fun m _ success => (failed success).elim
      · have passed : ret.exception = .none := Decidable.of_not_not passed
        rintro m ⟨measured, ordered⟩
        exact Prog.Runs.mono (ih strings.2) (fun m holds => holds.2.1 passed)
          (fun _ _ rest success => ⟨ordered passed, rest success⟩) m measured

/-- A successful measurement finds every module in order. -/
theorem mbiCalcHash_ordered {mbi : UInt32} (bounded : (configurationAt mem mbi).Bounded) :
    Prog.Runs True (reached done) (mbiCalcHash device mbi)
      fun ret _ => ret.exception = .none → ∀ other ∈ entriesAt mem mbi, OrderedAt mem other := by
  refine Prog.Runs.bind ((extending.hashCmdline_runs bounded False.elim).both Prog.Runs.any)
    fun ret => ?_
  refine Prog.Runs.ite (fun failed => ?_) fun passed => ?_
  · exact Prog.Runs.ret fun m _ success => (failed success).elim
  have passed : ret.exception = .none := Decidable.of_not_not passed
  set first := (configurationAt mem mbi).cmdline.toList.map SecureHash.sha1
  have rest : Prog.Runs True (reached (done ++ first))
      (do
        if load32 mem mbi.toNat &&& mbiFlagMods = 0 then return .error .badModule ()
        if load32 mem (mbi.toNat + 20) = 0 then return .error .noModule ()
        outDescription "Hashing modules count" (load32 mem (mbi.toNat + 20))
        hashModules device (load32 mem (mbi.toNat + 20)).toNat
          (load32 mem (mbi.toNat + 24)))
      (fun ret _ => ret.exception = .none → ∀ other ∈ entriesAt mem mbi, OrderedAt mem other) := by
    refine Prog.Runs.ite (fun unset => ?_) fun _ => ?_
    · exact Prog.Runs.ret fun _ _ failed => nomatch failed
    refine Prog.Runs.ite (fun zero => ?_) fun _ => ?_
    · exact Prog.Runs.ret fun _ _ failed => nomatch failed
    have shown : Prog.Runs True (reached (done ++ first))
        (outDescription "Hashing modules count" (load32 mem (mbi.toNat + 20)))
        (fun _ => reached (done ++ first)) :=
      Prog.Runs.modify fun m holds => extending.output _ m _ holds
    refine Prog.Runs.bind shown fun _ => extending.hashModules_ordered fun other member => ?_
    exact bounded.strings _ (List.mem_map_of_mem member)
  rintro m ⟨⟨-, all, -⟩, -⟩
  have holds := all passed
  rw [Prog.bind_get, extending.mem_eq _ m holds]
  exact rest m holds

end Extending

end Ordered

namespace Loader

section Recorded

variable {σ : Type} {device : TisDevice σ} {m measured : Machine σ} {mem : Mem}
  {mbi addr : UInt32} {x first : ModuleT} {modules rest : List ModuleT} {n i k : Nat}

/-- The digest of a byte string has been passed to `TPM_Extend`. -/
def Recorded (log : List Event) (bytes : List UInt8) : Prop :=
  SecureHash.sha1 bytes ∈ extensions log

def contents (mem : Mem) (x : ModuleT) : List UInt8 :=
  read mem x.modStart.toNat (x.modEnd - x.modStart).toNat

theorem load32_eq_word32 (fits : addr.toNat + k + 4 ≤ 2 ^ 32) :
    load32 mem (addr.toNat + k) = word32 mem addr k := by
  refine load32_congr fun a lower upper => ?_
  rw [flat, Nat.mod_eq_of_lt (by omega)]

theorem mem_entriesFrom (inside : i < n) : entryAddr addr i ∈ entriesFrom n addr := by
  induction n generalizing addr i with
  | zero => omega
  | succ n ih =>
      cases i with
      | zero =>
          have here : entryAddr addr 0 = addr := by simp [entryAddr]
          rw [here]
          exact List.mem_cons_self
      | succ i =>
          have next : entryAddr addr (i + 1) = entryAddr (addr + 16) i := by
            rw [entryAddr, entryAddr, UInt32.ofNat_add, UInt32.add_mul, UInt32.add_assoc,
              UInt32.add_comm 16]
            rfl
          rw [next]
          exact List.mem_cons_of_mem _ (ih (by omega))

theorem mem_entriesAt (layout : Layout mbi addr modules.length)
    (list : ModuleList mem mbi addr modules) (inside : i < modules.length) :
    entryAddr addr i ∈ entriesAt mem mbi := by
  have info := layout.infoFits
  have count : (load32 mem (mbi.toNat + 20)).toNat = modules.length := by
    rw [load32_eq_word32 (by omega), list.count]
    exact UInt32.toNat_ofNat_of_lt' (length_lt layout)
  have start : load32 mem (mbi.toNat + 24) = addr := by
    rw [load32_eq_word32 (by omega), list.start]
  rw [entriesAt, count, start]
  exact mem_entriesFrom inside

theorem load32_entry (layout : Layout mbi addr n) (inside : i < n) (field : k + 4 ≤ 16) :
    load32 mem ((entryAddr addr i).toNat + k) = word32 mem (entryAddr addr i) k := by
  have fits := layout.listFits
  have place := toNat_entryAddr layout inside
  exact load32_eq_word32 (by omega)

/-- A module as `mbi_calc_hash` sees it, which looks through its fields. -/
theorem moduleAt_eq {entry : UInt32} (fits : entry.toNat + 16 ≤ 2 ^ 32) :
    Sable.moduleAt mem entry = ⟨contents mem (moduleAt mem entry),
      (cstring mem (moduleAt mem entry).string).getD []⟩ := by
  have start : load32 mem entry.toNat = word32 mem entry 0 :=
    load32_eq_word32 (k := 0) (by omega)
  rw [Sable.moduleAt, start, load32_eq_word32 (by omega), load32_eq_word32 (by omega), contents,
    moduleAt]

/-- A module of the list as `mbi_calc_hash` sees it. -/
theorem moduleAt_entry (layout : Layout mbi addr modules.length)
    (list : ModuleList mem mbi addr modules) (found : modules[i]? = some x) :
    Sable.moduleAt mem (entryAddr addr i) =
      ⟨contents mem x, (cstring mem x.string).getD []⟩ := by
  have inside := (List.getElem?_eq_some_iff.mp found).1
  have fits := layout.listFits
  have place := toNat_entryAddr layout inside
  rw [moduleAt_eq (by omega), list.entries i x found]

theorem cstringFrom_congr {other : Mem} {fuel a : Nat} {text : List UInt8}
    (found : cstringFrom mem fuel a = some text)
    (same : ∀ k ≤ text.length, other (a + k) = mem (a + k)) :
    cstringFrom other fuel a = some text := by
  induction fuel generalizing a text with
  | zero => cases found
  | succ fuel ih =>
      have here : other a = mem a := same 0 (Nat.zero_le _)
      rw [cstringFrom] at found ⊢
      rw [here]
      by_cases last : mem a = 0
      · rw [if_pos last] at found ⊢
        exact found
      · rw [if_neg last] at found ⊢
        obtain ⟨rest, behind, rfl⟩ := Option.map_eq_some_iff.mp found
        rw [ih behind fun k inside => ?_, Option.map_some]
        have next := same (k + 1) (Nat.succ_le_succ inside)
        rw [Nat.add_assoc, Nat.add_comm 1 k]
        exact next

/-- What a successful measurement says about a module of the list. -/
theorem mbiCalcHash_recorded (bounded : (configurationAt m.mem mbi).Bounded)
    (run : mbiCalcHash device mbi m = .ok (.ok ()) measured)
    (layout : Layout mbi addr modules.length) (list : ModuleList m.mem mbi addr modules)
    (member : x ∈ modules) :
    x.modStart ≤ x.modEnd ∧ Recorded measured.log (contents m.mem x) ∧
      ∀ text, cstring m.mem x.string = some text → text ≠ [] → Recorded measured.log text := by
  obtain ⟨i, inside, same⟩ := List.mem_iff_getElem.mp member
  have found : modules[i]? = some x := by rw [List.getElem?_eq_getElem inside, same]
  have entry := mem_entriesAt layout list inside
  have described := moduleAt_entry layout list found
  have recorded : ∀ item ∈ (configurationAt m.mem mbi).items, Recorded measured.log item := by
    intro item inside
    rw [Recorded, mbiCalcHash_extensions bounded run]
    exact List.mem_append_right _ (List.mem_map_of_mem inside)
  have items : ∀ item ∈ (Sable.moduleAt m.mem (entryAddr addr i)).items,
      Recorded measured.log item := fun item inside =>
    recorded item (List.mem_append_right _
      (List.mem_flatMap.mpr ⟨_, List.mem_map_of_mem entry, inside⟩))
  rw [described] at items
  have extending := extending_extended device m.mem (extensions m.log)
  have ordered : OrderedAt m.mem (entryAddr addr i) :=
    (extending.mbiCalcHash_ordered bounded).of_ok ⟨rfl, (List.append_nil _).symm⟩ run rfl _ entry
  refine ⟨?_, items _ List.mem_cons_self, fun text string filled => ?_⟩
  · have fields := list.entries i x found
    have start : load32 m.mem ((entryAddr addr i).toNat + 0) = x.modStart :=
      (load32_entry layout inside (by decide)).trans (congrArg ModuleT.modStart fields)
    have last : load32 m.mem ((entryAddr addr i).toNat + 4) = x.modEnd :=
      (load32_entry layout inside (by decide)).trans (congrArg ModuleT.modEnd fields)
    rw [← start, ← last]
    exact ordered
  · rw [string] at items
    refine items text (List.mem_cons_of_mem _ ?_)
    dsimp only [Option.getD_some]
    rw [if_neg filled]
    exact List.mem_singleton_self text

/-- What has been measured is still in place: the multiboot information, the module list, the
contents of the modules and the string of the first one. -/
structure InPlace (mbi addr : UInt32) (modules : List ModuleT) (string : UInt32)
    (text : List UInt8) (before after : Mem) : Prop where
  info : ∀ a, mbi.toNat ≤ a → a < mbi.toNat + 88 → after a = before a
  list : ∀ a, addr.toNat ≤ a → a < addr.toNat + 16 * modules.length → after a = before a
  contents : ∀ x ∈ modules, contents after x = contents before x
  string : ∀ k ≤ text.length, after (string.toNat + k) = before (string.toNat + k)

/-- The contents of a module do not change with the list. -/
theorem contents_frame {before : Mem} (ordered : x.modStart ≤ x.modEnd)
    (apart : Apart mbi addr n x) (frame : Frame mbi addr n before mem) :
    contents mem x = contents before x := by
  have order := UInt32.le_iff_toNat_le.mp ordered
  have size := UInt32.toNat_sub_of_le _ _ ordered
  have fits := x.modEnd.toNat_lt
  refine read_congr fun a lower upper => ?_
  obtain ⟨k, rfl⟩ := Nat.exists_eq_add_of_le lower
  have inside : k < (x.modEnd - x.modStart).toNat := by omega
  have elsewhere := apart k inside
  rw [Nat.mod_eq_of_lt (by omega)] at elsewhere
  exact frame _ (by omega) elsewhere

/-- The kernel, its command line and the initrd that `launch_kernel` passes on have been measured,
if nothing has touched them since. -/
theorem launchImages_recorded {text : List UInt8}
    (bounded : (configurationAt m.mem mbi).Bounded)
    (run : mbiCalcHash device mbi m = .ok (.ok ()) measured)
    (layout : Layout mbi addr (first :: rest).length)
    (list : ModuleList m.mem mbi addr (first :: rest))
    (distinct : ((first :: rest).map ModuleT.modStart).Nodup)
    (starts : ∀ x ∈ first :: rest, x.modStart ≠ 0)
    (apart : ∀ x ∈ first :: rest, Apart mbi addr (first :: rest).length x)
    (string : cstring m.mem first.string = some text)
    (fits : first.string.toNat + text.length < 2 ^ 32)
    (beside : ∀ k ≤ text.length, Elsewhere mbi addr (first :: rest).length
      (first.string.toNat + k))
    (kept : InPlace mbi addr (first :: rest) first.string text m.mem mem) :
    ∃ images launched, launchImages mem mbi = (some images, launched) ∧
      images = imagesOf first (rest.filter fun x => !sinit mem x) ∧
      Recorded measured.log (read launched images.kernelImage.toNat images.kernelSize.toNat) ∧
      (images.initrdSize ≠ 0 →
        Recorded measured.log (read launched images.initrdImage.toNat images.initrdSize.toNat)) ∧
      cstring launched (word32 launched mbi 16) = some text ∧
      (text ≠ [] → Recorded measured.log text) := by
  have later : ModuleList mem mbi addr (first :: rest) := list.of_same layout
    (fun a lower upper => kept.info a (by omega) (by omega)) kept.list
  obtain ⟨launched, images, -, cmdline, -, frame⟩ :=
    launchImages_eq layout later distinct starts apart
  have recorded {x : ModuleT} (member : x ∈ first :: rest) :=
    mbiCalcHash_recorded bounded run layout list member
  have untouched {x : ModuleT} (member : x ∈ first :: rest) :
      Recorded measured.log (contents launched x) := by
    obtain ⟨ordered, measures, -⟩ := recorded member
    rw [contents_frame ordered (apart x member) frame, kept.contents x member]
    exact measures
  refine ⟨_, launched, images, rfl, untouched List.mem_cons_self, fun filled => ?_, ?_, ?_⟩
  · cases left : rest.filter fun x => !sinit mem x with
    | nil =>
        rw [left] at filled
        exact (filled rfl).elim
    | cons second more =>
        have member : second ∈ rest.filter fun x => !sinit mem x := by
          rw [left]
          exact List.mem_cons_self
        exact untouched (List.mem_cons_of_mem _ (List.mem_of_mem_filter member))
  · rw [cmdline]
    refine cstringFrom_congr string fun k inside => ?_
    rw [frame _ (by omega) (beside k inside), kept.string k inside]
  · exact (recorded List.mem_cons_self).2.2 text string

end Recorded

section Example

def tinyKernel : ModuleT :=
  ⟨0x3000, 0x3001, 0x3100, 0⟩

def tinyInitrd : ModuleT :=
  ⟨0x3200, 0x3201, 0, 0⟩

/-- Two modules of one byte, the first of them with the string `a`. -/
def tinyMemory : Mem :=
  memoryOf [(0x1000, 0x08), (0x1014, 2), (0x1019, 0x20), (0x2001, 0x30), (0x2004, 1),
    (0x2005, 0x30), (0x2009, 0x31), (0x2011, 0x32), (0x2014, 1), (0x2015, 0x32), (0x3000, 0x79),
    (0x3100, 0x61), (0x3200, 0x7a)]

theorem apart_tinyModules : ∀ x ∈ [tinyKernel, tinyInitrd], Apart 0x1000 0x2000 2 x := by
  have info : (0x1000 : UInt32).toNat = 0x1000 := rfl
  have list : (0x2000 : UInt32).toNat = 0x2000 := rfl
  have place {start k : Nat} (low : 0x3000 ≤ start) (high : start + 1 ≤ 2 ^ 32) (inside : k < 1) :
      Elsewhere 0x1000 0x2000 2 ((start + k) % 2 ^ 32) :=
    ⟨by omega, by omega⟩
  intro x member k inside
  rcases List.mem_cons.mp member with rfl | member
  · exact place (by decide) (by decide) inside
  · obtain rfl := List.mem_singleton.mp member
    exact place (by decide) (by decide) inside

theorem tinyMemory_list : ModuleList tinyMemory 0x1000 0x2000 [tinyKernel, tinyInitrd] := by
  refine ⟨by decide, by decide, fun i x found => ?_⟩
  match i with
  | 0 =>
    obtain rfl := Option.some.inj found
    decide
  | 1 =>
    obtain rfl := Option.some.inj found
    decide

/-- A kernel with a command line and an initrd. -/
theorem launchImages_recorded_initrd :
    ∃ (log : List Event) (images : LaunchedImages) (launched : Mem),
      launchImages tinyMemory 0x1000 = (some images, launched) ∧
      images = imagesOf tinyKernel [tinyInitrd] ∧
      Recorded log (read launched images.kernelImage.toNat images.kernelSize.toNat) ∧
      (images.initrdSize ≠ 0 →
        Recorded log (read launched images.initrdImage.toNat images.initrdSize.toNat)) ∧
      cstring launched (word32 launched 0x1000 16) = some [0x61] ∧
      (([0x61] : List UInt8) ≠ [] → Recorded log [0x61]) := by
  have config : configurationAt tinyMemory 0x1000 = ⟨none, [⟨[0x79], [0x61]⟩, ⟨[0x7a], []⟩]⟩ := by
    decide
  have measurable : Measurable tinyMemory 0x1000 := by
    refine ⟨by decide, by decide, fun _ => by decide, ?_⟩
    have entries : entriesAt tinyMemory 0x1000 = [0x2000, 0x2010] := by decide
    rw [entries, List.forall_mem_cons, List.forall_mem_singleton]
    exact ⟨⟨by decide, by decide, by decide⟩, ⟨by decide, by decide, by decide⟩⟩
  have bounded : (configurationAt tinyMemory 0x1000).Bounded := by
    rw [config]
    exact Configuration.bounded_of_items (by decide)
  let m : Machine (FifoView (Block 20)) :=
    { Machine.blank (FifoView.idle (Block.zero 20)) with mem := tinyMemory }
  have idle : pcrTpm.view m.world = FifoView.idle (Block.zero 20) := rfl
  obtain ⟨measured, run⟩ := mbiCalcHash_succeeds pcrTpm_honest pcrTpm_grants rfl idle
    measurable bounded
  have behind : [tinyInitrd].filter (fun x => !sinit tinyMemory x) = [tinyInitrd] := by
    decide
  have beside : ∀ k ≤ 1, Elsewhere 0x1000 0x2000 2 (tinyKernel.string.toNat + k) := by
    have info : (0x1000 : UInt32).toNat = 0x1000 := rfl
    have list : (0x2000 : UInt32).toNat = 0x2000 := rfl
    have string : tinyKernel.string.toNat = 0x3100 := rfl
    exact fun k _ => ⟨by omega, by omega⟩
  have launch := @launchImages_recorded _ _ m measured tinyMemory 0x1000 0x2000 tinyKernel
    [tinyInitrd] [0x61] bounded run
    ⟨by decide, by decide, by decide, by decide, by decide⟩ tinyMemory_list (by decide)
    (by decide) apart_tinyModules (by decide) (by decide) beside
    ⟨fun _ _ _ => rfl, fun _ _ _ => rfl, fun _ _ => rfl, fun _ _ => rfl⟩
  rw [behind] at launch
  exact ⟨measured.log, launch⟩

end Example

end Loader

end Sable
