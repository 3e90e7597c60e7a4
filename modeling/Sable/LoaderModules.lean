import Sable.HeapInitialisation
import Sable.Memcpy
import Sable.SinitSelection

/-!
# The module list of the loader

`remove_module` and `remove_txt_modules` work on the module list of a multiboot 1 loader in
place.  A module is removed by its start address: the modules behind it are copied down by one.
A loop that finds no module with the address ends with the last module, so that the test for
a missing module never succeeds.
-/

namespace Sable

open ByteMemory

/-- `module_t` -/
structure ModuleT where
  modStart : UInt32
  modEnd : UInt32
  string : UInt32
  reserved : UInt32
  deriving DecidableEq

namespace Loader

section Model

variable (mem : Mem) (mbi : UInt32)

def storeWord (addr word : UInt32) : Mem :=
  storeFrom mem addr 4 fun i => (le32 word).getD i 0

def getModuleCount : UInt32 :=
  if mbi = 0 then 0 else word32 mem mbi 20

/-- The address of a module, which is null if there is none. -/
def getModule (i : UInt32) : UInt32 :=
  if mbi = 0 then 0
  else if i ≥ word32 mem mbi 20 then 0
  else word32 mem mbi 24 + i * 16

def verifyLoaderContext : Bool :=
  mbi ≠ 0 ∧ ¬ getModuleCount mem mbi < 1

/-- The loop of `remove_module`, with the number of modules that are left: the index and the
module it ends with. -/
def findModule (modStart : UInt32) : Nat → UInt32 → UInt32 → UInt32 × UInt32
  | 0, i, m => (i, m)
  | left + 1, i, _ =>
      let m := getModule mem mbi i
      if modStart = 0 ∨ word32 mem m 0 = modStart then (i, m)
      else findModule modStart left (i + 1) m

/-- The start of the module that is removed, and the memory afterwards. -/
def removeModule (modStart : UInt32) : UInt32 × Mem :=
  if ¬ verifyLoaderContext mem mbi then (0, mem)
  else
    let (i, m) := findModule mem mbi modStart (getModuleCount mem mbi).toNat 0 0
    if m = 0 then (0, mem)
    else
      let (modStart, mem) :=
        if modStart = 0 then
          let mem := storeWord mem (mbi + 16) (word32 mem m 8)
          let mem := storeWord mem mbi (word32 mem mbi 0 ||| 0x4)
          (word32 mem m 0, mem)
        else (modStart, mem)
      let mem := (memcpy mem m (m + 16) ((word32 mem mbi 20 - i - 1) * 16)).2
      (modStart, storeWord mem (mbi + 20) (word32 mem mbi 20 - 1))

end Model

section Txt

/-- The loop of `remove_txt_modules` down from module `i`; the result tells whether it has
failed. -/
def removeTxtLoop (mbi : UInt32) : Nat → Mem → Bool × Mem
  | 0, mem => (false, mem)
  | i + 1, mem =>
      let m := getModule mem mbi (UInt32.ofNat (i + 1))
      let base := word32 mem m 0
      if isSinitAcmod mem base (word32 mem m 4 - base) then
        let (removed, mem) := removeModule mem mbi base
        if removed = 0 then (true, mem) else removeTxtLoop mbi i mem
      else removeTxtLoop mbi i mem

def removeTxtModules (mem : Mem) (mbi : UInt32) : Bool × Mem :=
  if getModuleCount mem mbi = 0 then (true, mem)
  else removeTxtLoop mbi (getModuleCount mem mbi - 1).toNat mem

end Txt

section Lists

/-- The module at an address. -/
def moduleAt (mem : Mem) (addr : UInt32) : ModuleT :=
  ⟨word32 mem addr 0, word32 mem addr 4, word32 mem addr 8, word32 mem addr 12⟩

/-- The address of the `i`-th module of a list. -/
def entryAddr (addr : UInt32) (i : Nat) : UInt32 :=
  addr + UInt32.ofNat i * 16

/-- The multiboot information at `mbi` describes a list of modules at `addr`. -/
structure ModuleList (mem : Mem) (mbi addr : UInt32) (modules : List ModuleT) : Prop where
  count : word32 mem mbi 20 = UInt32.ofNat modules.length
  start : word32 mem mbi 24 = addr
  entries : ∀ i m, modules[i]? = some m → moduleAt mem (entryAddr addr i) = m

/-- The multiboot information and its module list, with room for `n` modules, lie beside each
other. -/
structure Layout (mbi addr : UInt32) (n : Nat) : Prop where
  present : mbi ≠ 0
  list : addr ≠ 0
  infoFits : mbi.toNat + 88 ≤ 2 ^ 32
  listFits : addr.toNat + 16 * n ≤ 2 ^ 32
  apart : mbi.toNat + 88 ≤ addr.toNat ∨ addr.toNat + 16 * n ≤ mbi.toNat

variable {mem other : Mem} {mbi addr src dst : UInt32} {modules : List ModuleT} {n i : Nat}

theorem moduleAt_image (image : SameImage mem src other dst 16) :
    moduleAt other dst = moduleAt mem src := by
  rw [moduleAt, moduleAt, image.word32 (by decide), image.word32 (by decide),
    image.word32 (by decide), image.word32 (by decide)]

theorem toNat_entryAddr (layout : Layout mbi addr n) (inside : i < n) :
    (entryAddr addr i).toNat = addr.toNat + 16 * i := by
  have fits := layout.listFits
  have size : (16 : UInt32).toNat = 16 := rfl
  rw [entryAddr, UInt32.toNat_add, UInt32.toNat_mul, size,
    UInt32.toNat_ofNat_of_lt' (by simp only [UInt32.size]; omega)]
  omega

theorem length_lt (layout : Layout mbi addr n) : n < 2 ^ 32 := by
  have fits := layout.listFits
  omega

theorem Layout.mono (layout : Layout mbi addr n) {less : Nat} (fewer : less ≤ n) :
    Layout mbi addr less :=
  ⟨layout.present, layout.list, layout.infoFits, by have := layout.listFits; omega,
    by have := layout.apart; omega⟩

theorem getModuleCount_eq (layout : Layout mbi addr modules.length)
    (list : ModuleList mem mbi addr modules) :
    getModuleCount mem mbi = UInt32.ofNat modules.length := by
  rw [getModuleCount, if_neg layout.present, list.count]

theorem toNat_getModuleCount (layout : Layout mbi addr modules.length)
    (list : ModuleList mem mbi addr modules) :
    (getModuleCount mem mbi).toNat = modules.length := by
  rw [getModuleCount_eq layout list]
  exact UInt32.toNat_ofNat_of_lt' (length_lt layout)

theorem getModule_eq (layout : Layout mbi addr modules.length)
    (list : ModuleList mem mbi addr modules) (inside : i < modules.length) :
    getModule mem mbi (UInt32.ofNat i) = entryAddr addr i := by
  have bound := length_lt layout
  have first : (UInt32.ofNat i).toNat = i :=
    UInt32.toNat_ofNat_of_lt' (by simp only [UInt32.size]; omega)
  have last : (UInt32.ofNat modules.length).toNat = modules.length :=
    UInt32.toNat_ofNat_of_lt' bound
  have small : ¬ UInt32.ofNat i ≥ word32 mem mbi 20 := by
    rw [list.count, ge_iff_le, UInt32.le_iff_toNat_le]
    omega
  rw [getModule, if_neg layout.present, if_neg small, list.start, entryAddr]

theorem entryAddr_ne_zero (layout : Layout mbi addr n) (inside : i < n) :
    entryAddr addr i ≠ 0 := by
  have place := toNat_entryAddr layout inside
  have positive : 0 < addr.toNat := Nat.pos_of_ne_zero fun none =>
    layout.list (UInt32.toNat_inj.mp none)
  intro none
  rw [none] at place
  change 0 = _ at place
  omega

theorem ModuleList.modStart (list : ModuleList mem mbi addr modules) {m : ModuleT}
    (found : modules[i]? = some m) : word32 mem (entryAddr addr i) 0 = m.modStart :=
  congrArg ModuleT.modStart (list.entries i m found)

/-- The loop finds the first module with the address; if there is none, it ends with the last
module. -/
theorem findModule_eq (layout : Layout mbi addr modules.length)
    (list : ModuleList mem mbi addr modules) {modStart m : UInt32} (some : modStart ≠ 0)
    {left : Nat} (rest : i + left = modules.length) :
    findModule mem mbi modStart left (UInt32.ofNat i) m =
      match (modules.drop i).findIdx? fun x => x.modStart = modStart with
      | Option.some k => (UInt32.ofNat (i + k), entryAddr addr (i + k))
      | none => (UInt32.ofNat modules.length,
          if left = 0 then m else entryAddr addr (modules.length - 1)) := by
  induction left generalizing i m with
  | zero =>
      rw [List.drop_eq_nil_of_le (by omega)]
      obtain rfl : i = modules.length := rest
      rfl
  | succ left ih =>
      have inside : i < modules.length := by omega
      have first := list.modStart (List.getElem?_eq_getElem inside)
      rw [findModule, getModule_eq layout list inside]
      rw [first, List.drop_eq_getElem_cons inside, List.findIdx?_cons]
      by_cases found : modules[i].modStart = modStart
      · rw [if_pos (.inr found), if_pos (decide_eq_true found)]
        rfl
      · have other : ¬ (modStart = 0 ∨ modules[i].modStart = modStart) := fun either =>
          either.elim some found
        rw [if_neg other, if_neg (by simpa using found)]
        have next : UInt32.ofNat i + 1 = UInt32.ofNat (i + 1) := (UInt32.ofNat_add i 1).symm
        rw [next, ih (by omega)]
        cases (modules.drop (i + 1)).findIdx? fun x => x.modStart = modStart with
        | some k =>
            dsimp only [Option.map_some]
            rw [Nat.add_assoc, Nat.add_comm 1 k]
        | none =>
            rw [Option.map_none]
            dsimp only
            rw [if_neg (Nat.succ_ne_zero left)]
            by_cases last : left = 0
            · rw [if_pos last]
              congr 2
              omega
            · rw [if_neg last]

end Lists

section Removal

variable {mem other : Mem} {mbi addr : UInt32} {modules : List ModuleT} {n i a : Nat}

/-- The address is neither in the multiboot information nor in the list. -/
structure Elsewhere (mbi addr : UInt32) (n a : Nat) : Prop where
  info : a < mbi.toNat ∨ mbi.toNat + 88 ≤ a
  list : a < addr.toNat ∨ addr.toNat + 16 * n ≤ a

/-- Memory when the modules behind the `i`-th have been copied down. -/
theorem memcpy_entries (layout : Layout mbi addr n) (inside : i < n) :
    (memcpy mem (entryAddr addr i) (entryAddr addr i + 16)
      ((UInt32.ofNat n - UInt32.ofNat i - 1) * 16)).2 =
        moved mem (addr.toNat + 16 * i) (addr.toNat + 16 * (i + 1)) 0 (16 * (n - i - 1)) := by
  have fits := layout.listFits
  have dst := toNat_entryAddr layout inside
  have size : (16 : UInt32).toNat = 16 := rfl
  have one : (1 : UInt32).toNat = 1 := rfl
  have last : (UInt32.ofNat n).toNat = n := UInt32.toNat_ofNat_of_lt' (length_lt layout)
  have first : (UInt32.ofNat i).toNat = i :=
    UInt32.toNat_ofNat_of_lt' (by simp only [UInt32.size]; omega)
  have length : ((UInt32.ofNat n - UInt32.ofNat i - 1) * 16).toNat = 16 * (n - i - 1) := by
    rw [UInt32.toNat_mul, UInt32.toNat_sub, UInt32.toNat_sub, last, first, size, one]
    omega
  have src : (entryAddr addr i + 16).toNat = (addr.toNat + 16 * (i + 1)) % 2 ^ 32 := by
    rw [UInt32.toNat_add, dst, size]
    omega
  rw [memcpy_eq_moved (by omega) (by omega), dst, length, src]
  dsimp only
  by_cases rest : i + 1 = n
  · rw [show n - i - 1 = 0 by omega, Nat.mul_zero, moved_empty, moved_empty]
  · rw [Nat.mod_eq_of_lt (by omega)]

/-- Memory when the `i`-th module has been removed. -/
def withoutModule (mem : Mem) (mbi addr : UInt32) (n i : Nat) : Mem :=
  storeWord (moved mem (addr.toNat + 16 * i) (addr.toNat + 16 * (i + 1)) 0 (16 * (n - i - 1)))
    (mbi + 20) (UInt32.ofNat n - 1)

theorem storeWord_outside {addr word : UInt32} (fits : addr.toNat + 4 ≤ 2 ^ 32)
    (below : a < 2 ^ 32) (outside : a < addr.toNat ∨ addr.toNat + 4 ≤ a) :
    storeWord mem addr word a = mem a := by
  rw [storeWord, storeFrom, if_neg (by omega)]

theorem toNat_count (layout : Layout mbi addr n) : (mbi + 20).toNat = mbi.toNat + 20 := by
  have fits := layout.infoFits
  have offset : (20 : UInt32).toNat = 20 := rfl
  rw [UInt32.toNat_add, offset, Nat.mod_eq_of_lt (by omega)]

/-- Nothing changes outside the number of modules and the modules behind the one removed. -/
theorem withoutModule_outside (layout : Layout mbi addr n) (below : a < 2 ^ 32)
    (count : a < mbi.toNat + 20 ∨ mbi.toNat + 24 ≤ a)
    (behind : a < addr.toNat + 16 * i ∨ addr.toNat + 16 * i + 16 * (n - i - 1) ≤ a) :
    withoutModule mem mbi addr n i a = mem a := by
  have fits := layout.infoFits
  have place := toNat_count layout
  rw [withoutModule, storeWord_outside (by omega) below (by omega)]
  exact moved_outside behind

theorem withoutModule_elsewhere (layout : Layout mbi addr n) (inside : i < n)
    (below : a < 2 ^ 32) (elsewhere : Elsewhere mbi addr n a) :
    withoutModule mem mbi addr n i a = mem a := by
  obtain ⟨info, list⟩ := elsewhere
  exact withoutModule_outside layout below (by omega) (by omega)

theorem withoutModule_moved (layout : Layout mbi addr n) {k : Nat}
    (behind : k < 16 * (n - i - 1)) :
    withoutModule mem mbi addr n i (addr.toNat + 16 * i + k) =
      mem (addr.toNat + 16 * (i + 1) + k) := by
  have info := layout.infoFits
  have list := layout.listFits
  have apart := layout.apart
  have place := toNat_count layout
  rw [withoutModule, storeWord_outside (by omega) (by omega) (by omega)]
  exact moved_inside (Nat.zero_le _) behind

theorem sameImage_of_bytes {src dst : UInt32} {length : Nat} (srcFits : src.toNat + length ≤ 2 ^ 32)
    (dstFits : dst.toNat + length ≤ 2 ^ 32)
    (same : ∀ k < length, other (dst.toNat + k) = mem (src.toNat + k)) :
    SameImage mem src other dst length := by
  intro k inside
  rw [word8, word8, flat, flat, Nat.mod_eq_of_lt (by omega), Nat.mod_eq_of_lt (by omega)]
  exact same k inside

theorem word32_storeWord (mem : Mem) (addr word : UInt32) :
    word32 (storeWord mem addr word) addr 0 = word :=
  word32_storeFrom_self word

theorem word32_at (offset : UInt32) (k : Nat) (same : offset.toNat = k) :
    word32 mem mbi k = word32 mem (mbi + offset) 0 := by
  rw [← same]
  exact (word32_add offset 0).symm

/-- The modules behind the one that is removed move up in the list. -/
theorem withoutModule_list (layout : Layout mbi addr modules.length)
    (list : ModuleList mem mbi addr modules) (inside : i < modules.length) :
    ModuleList (withoutModule mem mbi addr modules.length i) mbi addr (modules.eraseIdx i) := by
  have info := layout.infoFits
  have apart := layout.apart
  have fits := layout.listFits
  have length := List.length_eraseIdx_of_lt inside
  refine ⟨?_, ?_, fun j m found => ?_⟩
  · rw [word32_at 20 20 rfl, length, UInt32.ofNat_sub (by omega), withoutModule]
    exact word32_storeWord _ _ _
  · have place : (mbi + 24).toNat = mbi.toNat + 24 := by
      have offset : (24 : UInt32).toNat = 24 := rfl
      rw [UInt32.toNat_add, offset, Nat.mod_eq_of_lt (by omega)]
    have image : SameImage mem (mbi + 24) (withoutModule mem mbi addr modules.length i)
        (mbi + 24) 4 := sameImage_of_bytes (by omega) (by omega) fun k small =>
      withoutModule_outside layout (by omega) (by omega) (by omega)
    rw [word32_at 24 24 rfl, image.word32 (by decide), ← list.start, word32_at 24 24 rfl]
  · have small : j < modules.length - 1 := by
      rw [← length]
      exact (List.getElem?_eq_some_iff.mp found).1
    have here := toNat_entryAddr layout (by omega : j < modules.length)
    have next := toNat_entryAddr layout (by omega : j + 1 < modules.length)
    rw [List.getElem?_eraseIdx] at found
    by_cases front : j < i
    · rw [if_pos front] at found
      have image : SameImage mem (entryAddr addr j)
          (withoutModule mem mbi addr modules.length i) (entryAddr addr j) 16 :=
        sameImage_of_bytes (by omega) (by omega) fun k small =>
          withoutModule_outside layout (by omega) (by omega) (by omega)
      exact (moduleAt_image image).trans (list.entries j m found)
    · rw [if_neg front] at found
      have image : SameImage mem (entryAddr addr (j + 1))
          (withoutModule mem mbi addr modules.length i) (entryAddr addr j) 16 :=
        sameImage_of_bytes (by omega) (by omega) fun k small => by
          have moves := @withoutModule_moved mem mbi addr modules.length i layout
            (16 * (j - i) + k) (by omega)
          rw [here, next, show addr.toNat + 16 * j + k = addr.toNat + 16 * i + (16 * (j - i) + k) by
            omega, moves]
          exact congrArg mem (by omega)
      exact (moduleAt_image image).trans (list.entries (j + 1) m found)

theorem verifyLoaderContext_eq (layout : Layout mbi addr modules.length)
    (list : ModuleList mem mbi addr modules) (some : 0 < modules.length) :
    verifyLoaderContext mem mbi = true := by
  have one : (1 : UInt32).toNat = 1 := rfl
  rw [verifyLoaderContext, decide_eq_true_iff, UInt32.lt_iff_toNat_lt,
    toNat_getModuleCount layout list, one]
  exact ⟨layout.present, by omega⟩

/-- A module that is in the list is removed. -/
theorem removeModule_found (layout : Layout mbi addr modules.length)
    (list : ModuleList mem mbi addr modules) {modStart : UInt32} (some : modStart ≠ 0)
    (found : modules.findIdx? (fun x => x.modStart = modStart) = Option.some i) :
    removeModule mem mbi modStart =
      (modStart, withoutModule mem mbi addr modules.length i) := by
  have inside : i < modules.length := (List.findIdx?_eq_some_iff_getElem.mp found).1
  have valid := verifyLoaderContext_eq layout list (by omega)
  have start := @findModule_eq mem mbi addr modules 0 layout list modStart 0 some modules.length
    (Nat.zero_add _)
  rw [List.drop_zero, found] at start
  dsimp only at start
  rw [Nat.zero_add] at start
  change findModule mem mbi modStart modules.length 0 0 = _ at start
  have info := layout.infoFits
  have apart := layout.apart
  have copied := @memcpy_entries mem mbi addr modules.length i layout inside
  have count : word32 (moved mem (addr.toNat + 16 * i) (addr.toNat + 16 * (i + 1)) 0
      (16 * (modules.length - i - 1))) mbi 20 = UInt32.ofNat modules.length := by
    have place := toNat_count layout
    have image : SameImage mem (mbi + 20) (moved mem (addr.toNat + 16 * i)
        (addr.toNat + 16 * (i + 1)) 0 (16 * (modules.length - i - 1))) (mbi + 20) 4 :=
      sameImage_of_bytes (by omega) (by omega) fun k small => moved_outside (by omega)
    rw [word32_at 20 20 rfl, image.word32 (by decide), ← list.count, word32_at 20 20 rfl]
  rw [removeModule, if_neg (not_not_intro valid), toNat_getModuleCount layout list, start]
  dsimp only
  rw [if_neg (entryAddr_ne_zero layout inside), if_neg some]
  dsimp only
  rw [list.count, copied, count, withoutModule]

/-- For an address that no module starts at, the address is returned all the same. -/
theorem removeModule_missing (layout : Layout mbi addr modules.length)
    (list : ModuleList mem mbi addr modules) (filled : 0 < modules.length) {modStart : UInt32}
    (some : modStart ≠ 0)
    (missing : modules.findIdx? (fun x => x.modStart = modStart) = none) :
    (removeModule mem mbi modStart).1 = modStart := by
  have valid := verifyLoaderContext_eq layout list filled
  have start := @findModule_eq mem mbi addr modules 0 layout list modStart 0 some modules.length
    (Nat.zero_add _)
  rw [List.drop_zero, missing] at start
  dsimp only at start
  rw [if_neg (by omega)] at start
  change findModule mem mbi modStart modules.length 0 0 = _ at start
  rw [removeModule, if_neg (not_not_intro valid), toNat_getModuleCount layout list, start]
  dsimp only
  rw [if_neg (entryAddr_ne_zero layout (by omega)), if_neg some]

/-- What `remove_module` is meant to do. -/
def RemovesFirst (mem : Mem) (mbi addr : UInt32) (modules : List ModuleT) (modStart : UInt32) :
    Prop :=
  match modules.findIdx? fun x => x.modStart = modStart with
  | some i => (removeModule mem mbi modStart).1 = modStart ∧
      ModuleList (removeModule mem mbi modStart).2 mbi addr
        (modules.take i ++ modules.drop (i + 1))
  | none => (removeModule mem mbi modStart).1 = 0 ∧
      ModuleList (removeModule mem mbi modStart).2 mbi addr modules

/-- It does so exactly for the addresses that modules start at. -/
theorem removeModule_iff (layout : Layout mbi addr modules.length)
    (list : ModuleList mem mbi addr modules) (filled : 0 < modules.length) {modStart : UInt32}
    (some : modStart ≠ 0) :
    RemovesFirst mem mbi addr modules modStart ↔ ∃ m ∈ modules, m.modStart = modStart := by
  rw [RemovesFirst]
  cases search : modules.findIdx? fun x => x.modStart = modStart with
  | none =>
      have absent := List.findIdx?_eq_none_iff.mp search
      have returned := removeModule_missing layout list filled some search
      refine iff_of_false (fun ⟨null, _⟩ => some (returned.symm.trans null)) ?_
      rintro ⟨m, member, same⟩
      exact of_decide_eq_false (absent m member) same
  | some i =>
      obtain ⟨inside, same, -⟩ := List.findIdx?_eq_some_iff_getElem.mp search
      have removes := removeModule_found layout list some search
      have shorter := withoutModule_list layout list inside
      rw [List.eraseIdx_eq_take_drop_succ] at shorter
      refine iff_of_true ?_ ⟨modules[i], List.getElem_mem inside, of_decide_eq_true same⟩
      rw [removes]
      exact ⟨rfl, shorter⟩

end Removal

section Examples

def moduleBytes (m : ModuleT) : List UInt8 :=
  le32 m.modStart ++ le32 m.modEnd ++ le32 m.string ++ le32 m.reserved

/-- Memory with multiboot information at `0x9000` and a module list at `0x9100`. -/
def listMemory (mem : Mem) (modules : List ModuleT) : Mem :=
  write (write mem 0x9014 (le32 (UInt32.ofNat modules.length) ++ le32 0x9100)) 0x9100
    (modules.flatMap moduleBytes)

def kernelModule : ModuleT :=
  ⟨0x100000, 0x180000, 0, 0⟩

def initrdModule : ModuleT :=
  ⟨0x200000, 0x280000, 0, 0⟩

theorem removeModule_iff_initrd :
    RemovesFirst (listMemory (fun _ => 0) [kernelModule, initrdModule]) 0x9000 0x9100
        [kernelModule, initrdModule] 0x200000 ↔
      ∃ m ∈ [kernelModule, initrdModule], m.modStart = 0x200000 :=
  removeModule_iff ⟨by decide, by decide, by decide, by decide, by decide⟩
    ⟨by decide, by decide, by
      intro i m found
      match i with
      | 0 =>
        obtain rfl := Option.some.inj found
        decide
      | 1 =>
        obtain rfl := Option.some.inj found
        decide⟩ (by decide) (by decide)

/-- The address of a module that is not in the list is returned instead of null. -/
theorem removeModule_absent :
    ModuleList (listMemory (fun _ => 0) [kernelModule]) 0x9000 0x9100 [kernelModule] ∧
      ¬ RemovesFirst (listMemory (fun _ => 0) [kernelModule]) 0x9000 0x9100 [kernelModule]
        0x200000 := by
  have list : ModuleList (listMemory (fun _ => 0) [kernelModule]) 0x9000 0x9100 [kernelModule] := by
    refine ⟨by decide, by decide, ?_⟩
    intro i m found
    match i with
    | 0 =>
      obtain rfl := Option.some.inj found
      decide
  have returned := @removeModule_missing _ _ _ [kernelModule]
    ⟨by decide, by decide, by decide, by decide, by decide⟩ list (by decide) 0x200000 (by decide)
    (by decide)
  refine ⟨list, fun removes => ?_⟩
  have null : (removeModule (listMemory (fun _ => 0) [kernelModule]) 0x9000 0x200000).1 = 0 :=
    removes.1
  rw [returned] at null
  exact absurd null (by decide)

end Examples

end Loader

end Sable
