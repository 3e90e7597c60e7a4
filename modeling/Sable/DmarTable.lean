import Sable.HeapInitialisation
import Sable.RsdpSearch

/-!
# Saving and restoring the table of the remapping hardware

The kernel hides the table from others by overwriting its signature.  `save_vtd_dmar_table` of
`acpi.c` keeps where the table is, and `restore_vtd_dmar_table` writes the signature back, after
which the table is found again.
-/

namespace Sable

open ByteMemory HaltingProgram

section Model

/-- `DMAR_SIG`: "DMAR" -/
def dmarSig : List UInt8 := [0x44, 0x4D, 0x41, 0x52]

variable (fuel : Nat)

def getVtdDmarTable : Prog Halt AcpiMachine UInt32 :=
  findTable fuel dmarSig

/-- `save_vtd_dmar_table`; the value is that of `g_dmar_table`. -/
def saveVtdDmarTable : Prog Halt AcpiMachine UInt32 :=
  getVtdDmarTable fuel

/-- `restore_vtd_dmar_table`; the values are the result and `g_hide_dmar`. -/
def restoreVtdDmarTable (gDmarTable : UInt32) : Prog Halt AcpiMachine (Bool × Bool) := do
  let hdr ← getVtdDmarTable fuel
  if hdr ≠ 0 then return (true, false)
  else if gDmarTable = 0 then return (false, false)
  else
    Prog.modify fun m =>
      { m with mem := storeFrom m.mem gDmarTable 4 fun i => dmarSig.getD i 0 }
    return (true, true)

end Model

section Search

variable {mem other : Mem} {name : List UInt8} {tables size table : UInt32} {fuel : Nat}
  {m reached : AcpiMachine}

theorem word8_flat (same : flat mem = flat other) (addr : UInt32) (offset : Nat) :
    word8 mem addr offset = word8 other addr offset :=
  congrFun same _

theorem word32_flat (same : flat mem = flat other) (addr : UInt32) (offset : Nat) :
    word32 mem addr offset = word32 other addr offset := by
  rw [word32, word32, same]

theorem word64_flat (same : flat mem = flat other) (addr : UInt32) (offset : Nat) :
    word64 mem addr offset = word64 other addr offset := by
  simp only [word64, word32_flat same]

theorem memcmp_flat (same : flat mem = flat other) (addr : UInt32) :
    memcmp mem addr name = memcmp other addr name := by
  induction name generalizing addr with
  | nil => rfl
  | cons byte bytes ih => rw [memcmp, memcmp, word8_flat same, ih]

/-- The search through the tables only reads, and a table that it finds has the name. -/
theorem tableLoop_found {currTable : UInt32}
    (run : tableLoop name tables size fuel currTable m = .ok table reached) :
    reached = m ∧ (table ≠ 0 → memcmp m.mem table name = false) ∧
      ∀ other : AcpiMachine, flat other.mem = flat m.mem →
        tableLoop name tables size fuel currTable other = .ok table other := by
  induction fuel generalizing currTable with
  | zero => cases run
  | succ fuel ih =>
      rw [tableLoop, Prog.bind_get] at run
      by_cases inside : currTable < tables + word32 m.mem tables 4
      · rw [if_pos inside] at run
        by_cases differs : memcmp m.mem (word32 m.mem currTable 0) name
        · rw [if_pos differs] at run
          obtain ⟨kept, named, again⟩ := ih run
          refine ⟨kept, named, fun other same => ?_⟩
          rw [tableLoop, Prog.bind_get, word32_flat same, if_pos inside, word32_flat same,
            memcmp_flat same, if_pos differs]
          exact again other same
        · rw [if_neg differs] at run
          cases run
          refine ⟨rfl, fun _ => eq_false_of_ne_true differs, fun other same => ?_⟩
          rw [tableLoop, Prog.bind_get, word32_flat same, if_pos inside, word32_flat same,
            memcmp_flat same, if_neg differs]
          rfl
      · rw [if_neg inside] at run
        cases run
        refine ⟨rfl, fun some => (some rfl).elim, fun other same => ?_⟩
        rw [tableLoop, Prog.bind_get, word32_flat same, if_neg inside]
        rfl

/-- What `find_table` does once there is a root pointer. -/
def findFrom (fuel : Nat) (name : List UInt8) (m : AcpiMachine) : Prog Halt AcpiMachine UInt32 :=
  let xsdt := getXsdt m
  if word8 m.mem m.rsdp 15 ≥ 2 ∧ xsdt ≠ 0 then tableLoop name xsdt 8 fuel (xsdt + 36)
  else
    let rsdt := getRsdt m
    if rsdt = 0 then return 0 else tableLoop name rsdt 4 fuel (rsdt + 36)

theorem findFrom_flat {other : AcpiMachine} (same : flat other.mem = flat m.mem)
    (rsdp : other.rsdp = m.rsdp) : findFrom fuel name other = findFrom fuel name m := by
  have xsdt : getXsdt other = getXsdt m := by
    rw [getXsdt, getXsdt, rsdp, word64_flat same]
  have rsdt : getRsdt other = getRsdt m := by
    rw [getRsdt, getRsdt, rsdp, word32_flat same]
  rw [findFrom, findFrom, xsdt, rsdt, rsdp, word8_flat same]

theorem findFrom_found {start : AcpiMachine}
    (run : findFrom fuel name start m = .ok table reached) :
    reached = m ∧ (table ≠ 0 → memcmp m.mem table name = false ∧
      ∀ other : AcpiMachine, flat other.mem = flat m.mem →
        findFrom fuel name start other = .ok table other) := by
  unfold findFrom at run ⊢
  by_cases extended : word8 start.mem start.rsdp 15 ≥ 2 ∧ getXsdt start ≠ 0
  · simp only [if_pos extended] at run ⊢
    obtain ⟨kept, named, again⟩ := tableLoop_found run
    exact ⟨kept, fun some => ⟨named some, again⟩⟩
  · simp only [if_neg extended] at run ⊢
    by_cases none : getRsdt start = 0
    · rw [if_pos none] at run
      cases run
      exact ⟨rfl, fun some => (some rfl).elim⟩
    · simp only [if_neg none] at run ⊢
      obtain ⟨kept, named, again⟩ := tableLoop_found run
      exact ⟨kept, fun some => ⟨named some, again⟩⟩

/-- A root pointer that is kept is used again. -/
theorem findTable_cached (cached : m.rsdp ≠ 0) :
    findTable fuel name m = findFrom fuel name m m := by
  have search : findRsdp m = .ok true m := by
    rw [findRsdp, Prog.bind_get, if_pos cached]
    rfl
  rw [findTable, Prog.bind_ok search]
  rfl

theorem findTable_stays (cached : m.rsdp ≠ 0) (run : findTable fuel name m = .ok table reached) :
    reached = m := by
  rw [findTable_cached cached] at run
  exact (findFrom_found run).1

/-- A table that was found has the name, and it is found again as long as the memory and the
root pointer are the same. -/
theorem findTable_found (run : findTable fuel name m = .ok table reached) (some : table ≠ 0) :
    memcmp reached.mem table name = false ∧
      ∀ other : AcpiMachine, flat other.mem = flat reached.mem → other.rsdp = reached.rsdp →
        other.rsdp ≠ 0 → findTable fuel name other = .ok table other := by
  obtain ⟨found, between, search, run⟩ := Prog.bind_eq_ok.mp run
  cases found with
  | false =>
      cases run
      exact (some rfl).elim
  | true =>
      obtain ⟨rfl, known⟩ := @findFrom_found _ _ _ _ _ between run
      obtain ⟨named, again⟩ := known some
      refine ⟨named, fun other same rsdp cached => ?_⟩
      rw [findTable_cached cached, findFrom_flat same rsdp]
      exact again other same

end Search

section Restored

variable {fuel : Nat} {table : UInt32} {m saved reached : AcpiMachine} {hidden : Nat → UInt8}
  {result hide : Bool}

theorem memcmp_bytes {mem : Mem} {addr : UInt32} {bytes : List UInt8}
    (same : memcmp mem addr bytes = false) {i : Nat} (inside : i < bytes.length) :
    flat mem (addr.toNat + i) = bytes.getD i 0 := by
  induction bytes generalizing addr i with
  | nil => exact absurd inside (Nat.not_lt_zero i)
  | cons byte bytes ih =>
      rw [memcmp] at same
      by_cases first : word8 mem addr 0 = byte
      · rw [if_neg (not_not.mpr first)] at same
        cases i with
        | zero => exact first
        | succ i =>
            have next : ((addr + 1).toNat + i) % 2 ^ 32 = (addr.toNat + (i + 1)) % 2 ^ 32 := by
              rw [UInt32.toNat_add]
              change ((addr.toNat + 1) % 2 ^ 32 + i) % 2 ^ 32 = _
              omega
            have rest := ih same (Nat.lt_of_succ_lt_succ inside)
            rw [flat, next] at rest
            exact rest
      · rw [if_pos first] at same
        cases same

/-- Writing the signature of a table back restores the memory. -/
theorem storeFrom_signature (named : memcmp m.mem table dmarSig = false) :
    flat (storeFrom (storeFrom m.mem table 4 hidden) table 4 fun i => dmarSig.getD i 0) =
      flat m.mem := by
  funext a
  rw [flat, storeFrom, storeFrom]
  by_cases inside : (a % 2 ^ 32 + 2 ^ 32 - table.toNat) % 2 ^ 32 < 4
  · have place : (table.toNat + (a % 2 ^ 32 + 2 ^ 32 - table.toNat) % 2 ^ 32) % 2 ^ 32 =
        a % 2 ^ 32 := by
      have bound := table.toNat_lt
      omega
    have byte := memcmp_bytes named inside
    rw [flat, place] at byte
    rw [if_pos inside, ← byte]
    rfl
  · rw [if_neg inside, if_neg inside]
    rfl

/-- After a table was saved, its signature may be overwritten with anything.  Unless there is
another such table, the memory is restored, and the table is found again. -/
theorem restoreVtdDmarTable_restores (save : saveVtdDmarTable fuel m = .ok table saved)
    (some : table ≠ 0)
    (restore : restoreVtdDmarTable fuel table
      { saved with mem := storeFrom m.mem table 4 hidden } = .ok (result, hide) reached) :
    result = true ∧
      (hide = false → reached.mem = storeFrom m.mem table 4 hidden) ∧
      (hide = true → flat reached.mem = flat m.mem ∧
        (saved.rsdp ≠ 0 → getVtdDmarTable fuel reached = .ok table reached)) := by
  obtain ⟨named, again⟩ := findTable_found save some
  have mem : saved.mem = m.mem :=
    congrArg Prod.fst ((findTable_keeps fuel dmarSig).eq_of_ok save)
  obtain ⟨hdr, between, search, run⟩ := Prog.bind_eq_ok.mp restore
  have kept : between.mem = storeFrom m.mem table 4 hidden :=
    congrArg Prod.fst ((findTable_keeps fuel dmarSig).eq_of_ok search)
  by_cases found : hdr ≠ 0
  · rw [if_pos found] at run
    cases run
    exact ⟨rfl, fun _ => kept, fun hides => Bool.noConfusion hides⟩
  · rw [if_neg found, if_neg some, Prog.bind_modify] at run
    cases run
    have restored : flat (storeFrom between.mem table 4 fun i => dmarSig.getD i 0) =
        flat m.mem := by
      rw [mem] at named
      rw [kept]
      exact storeFrom_signature named
    refine ⟨rfl, fun shown => Bool.noConfusion shown, fun _ => ⟨restored, fun cached => ?_⟩⟩
    have stays := findTable_stays (by exact cached) search
    have rsdp : between.rsdp = saved.rsdp := by
      rw [stays]
    apply again
    · rw [mem]
      exact restored
    · exact rsdp
    · rw [rsdp]
      exact cached

/-- A root pointer that leads to one table. -/
def dmarMachine : AcpiMachine :=
  ⟨write (write (write (fun _ => 0) 0xE0010 (le32 0x1000)) 0x1004 (le32 40 ++
    List.replicate 28 0 ++ le32 0x2000)) 0x2000 dmarSig, 0xE0000, []⟩

theorem restoreVtdDmarTable_restores_cleared :
    ∃ reached, restoreVtdDmarTable 2 0x2000
        { dmarMachine with mem := storeFrom dmarMachine.mem 0x2000 4 fun _ => 0 } =
          .ok (true, true) reached ∧
      flat reached.mem = flat dmarMachine.mem ∧
        getVtdDmarTable 2 reached = .ok 0x2000 reached := by
  have save : saveVtdDmarTable 2 dmarMachine = .ok 0x2000 dmarMachine := by
    rfl
  obtain ⟨reached, restore⟩ := Outcome.eq_ok_of_value?
    (show (restoreVtdDmarTable 2 0x2000 { dmarMachine with
        mem := storeFrom dmarMachine.mem 0x2000 4 fun _ => 0 }).value? = some (true, true) by
      decide)
  obtain ⟨-, -, restored⟩ := restoreVtdDmarTable_restores save (by decide) restore
  obtain ⟨same, again⟩ := restored rfl
  exact ⟨reached, restore, same, again (by decide)⟩

end Restored

end Sable
