import Sable.Acpi
import Sable.PointerWalks
import Sable.ReadRanges

/-!
# The entries of the interrupt controllers

`get_acpi_ioapic_table` goes from entry to entry by lengths that it only compares for an I/O
APIC entry, and looks at the end of the table only where an entry starts.  It returns, and
reads nothing behind the table, exactly if the entries that it comes to are whole.
-/

namespace Sable

open ByteMemory HaltingProgram PointerWalk

section Entries

variable (mem : Mem) (madt : UInt32)

/-- `(void *)madt + madt->hdr.length` -/
def madtEnd : UInt32 :=
  madt + word32 mem madt 4

/-- The walk ends behind the table and at an I/O APIC entry. -/
def EntryStops (entry : UInt32) : Prop :=
  ¬ entry < madtEnd mem madt ∨ word8 mem entry 0 = acpiMadtIoapic

instance decidableEntryStops : DecidablePred (EntryStops mem madt) :=
  fun _ => inferInstanceAs (Decidable (_ ∨ _))

def nextEntry (entry : UInt32) : UInt32 :=
  entry + (word8 mem entry 1).toUInt32

/-- The `n`-th entry of the table. -/
def madtEntry (n : Nat) : UInt32 :=
  (nextEntry mem)^[n] (madt + 44)

/-- The `n`-th entry starts in the table, and no I/O APIC entry comes before it. -/
def EntryListed (n : Nat) : Prop :=
  Visits (EntryStops mem madt) (nextEntry mem) (madt + 44) n ∧
    madtEntry mem madt n < madtEnd mem madt

/-- The head of the entry and the entry itself do not reach behind the table, and the entry
is not empty, so that another one can follow it. -/
structure EntryWhole (entry : UInt32) : Prop where
  head : Access.Among madt (word32 mem madt 4).toNat ⟨entry, 2⟩
  body : Access.Among madt (word32 mem madt 4).toNat ⟨entry, (word8 mem entry 1).toNat⟩
  followed : word8 mem entry 0 = acpiMadtIoapic ∨ word8 mem entry 1 ≠ 0

/-- What the loop returns where it stops. -/
def ioapicResult (entry : UInt32) : UInt32 :=
  if entry < madtEnd mem madt ∧ word8 mem entry 1 = madtIoapicSize then entry else 0

end Entries

section Loop

variable {madt entry value : UInt32} {fuel : Nat} {m : AcpiMachine}

/-- The machine behind the read of an entry. -/
def AcpiMachine.reading (m : AcpiMachine) (entry : UInt32) : AcpiMachine :=
  { m with entries := ⟨entry, (word8 m.mem entry 1).toNat⟩ :: ⟨entry, 2⟩ :: m.entries }

theorem ioapicLoop_end (left : ¬ entry < madtEnd m.mem madt) :
    ioapicLoop madt (fuel + 1) entry m = .ok 0 m := by
  have test : ¬ entry < madt + word32 m.mem madt 4 := left
  rw [ioapicLoop, Prog.bind_get, if_neg test]
  rfl

theorem ioapicLoop_ioapic (inside : entry < madtEnd m.mem madt)
    (ioapic : word8 m.mem entry 0 = acpiMadtIoapic) :
    ioapicLoop madt (fuel + 1) entry m =
      .ok (ioapicResult m.mem madt entry) (m.reading entry) := by
  have test : entry < madt + word32 m.mem madt 4 := inside
  rw [ioapicLoop, Prog.bind_get, if_pos test, ioapicResult]
  simp only [entryRead, Prog.bind_modify, if_pos ioapic]
  by_cases whole : word8 m.mem entry 1 = madtIoapicSize
  · rw [if_neg (not_not.mpr whole), if_pos ⟨inside, whole⟩]
    rfl
  · rw [if_pos whole, if_neg fun both => whole both.2]
    rfl

theorem ioapicLoop_next (going : ¬ EntryStops m.mem madt entry) :
    ioapicLoop madt (fuel + 1) entry m =
      ioapicLoop madt fuel (nextEntry m.mem entry) (m.reading entry) := by
  obtain ⟨inside, other⟩ := not_or.mp going
  have test : entry < madt + word32 m.mem madt 4 := not_not.mp inside
  rw [ioapicLoop, Prog.bind_get, if_pos test]
  simp only [entryRead, Prog.bind_modify, if_neg other]
  rfl

/-- The loop returns where the walk stops. -/
theorem ioapicLoop_returns_iff : (∃ reached, ioapicLoop madt fuel entry m = .ok value reached) ↔
    ∃ last, walk (EntryStops m.mem madt) (nextEntry m.mem) fuel entry = some last ∧
      ioapicResult m.mem madt last = value := by
  induction fuel generalizing entry m with
  | zero => simp [ioapicLoop, walk]
  | succ fuel ih =>
      rw [walk]
      by_cases going : EntryStops m.mem madt entry
      · rw [if_pos going]
        by_cases inside : entry < madtEnd m.mem madt
        · rw [ioapicLoop_ioapic inside (going.resolve_left (not_not.mpr inside))]
          simp
        · rw [ioapicLoop_end inside]
          simp [ioapicResult, inside]
      · rw [if_neg going, ioapicLoop_next going]
        exact ih

/-- The `n`-th entry behind `entry` is read, its head or the whole of it. -/
def EntryRead (mem : Mem) (madt entry : UInt32) (n : Nat) (access : Access) : Prop :=
  Visits (EntryStops mem madt) (nextEntry mem) entry n ∧
    (nextEntry mem)^[n] entry < madtEnd mem madt ∧
    (access = ⟨(nextEntry mem)^[n] entry, 2⟩ ∨
      access = ⟨(nextEntry mem)^[n] entry, (word8 mem ((nextEntry mem)^[n] entry) 1).toNat⟩)

theorem entryRead_succ {mem : Mem} {n : Nat} {access : Access} :
    EntryRead mem madt entry (n + 1) access ↔
      ¬ EntryStops mem madt entry ∧ EntryRead mem madt (nextEntry mem entry) n access := by
  rw [EntryRead, EntryRead, visits_succ, Function.iterate_succ_apply, and_assoc]

/-- The loop reads the entries that the walk comes to. -/
theorem mem_ioapicLoop_entries_iff {access : Access} :
    access ∈ (ioapicLoop madt fuel entry m).state.entries ↔
      access ∈ m.entries ∨ ∃ n < fuel, EntryRead m.mem madt entry n access := by
  induction fuel generalizing entry m with
  | zero => simp [ioapicLoop]
  | succ fuel ih =>
      have here : EntryRead m.mem madt entry 0 access ∨ access ∈ m.entries ↔
          if entry < madtEnd m.mem madt then access ∈ (m.reading entry).entries
          else access ∈ m.entries := by
        by_cases inside : entry < madtEnd m.mem madt
        · simp only [EntryRead, visits_zero, Function.iterate_zero, id_eq, inside, true_and,
            if_true, AcpiMachine.reading, List.mem_cons]
          tauto
        · simp [EntryRead, inside]
      rw [Nat.exists_lt_succ_left, ← or_assoc, or_comm (a := access ∈ _), here]
      simp only [entryRead_succ]
      by_cases inside : entry < madtEnd m.mem madt
      · rw [if_pos inside]
        by_cases ioapic : word8 m.mem entry 0 = acpiMadtIoapic
        · have stops : EntryStops m.mem madt entry := .inr ioapic
          rw [ioapicLoop_ioapic inside ioapic]
          simp [stops]
        · have going : ¬ EntryStops m.mem madt entry := not_or.mpr ⟨not_not.mpr inside, ioapic⟩
          rw [ioapicLoop_next going, ih]
          simp only [going, not_false_eq_true, true_and]
          rfl
      · have stops : EntryStops m.mem madt entry := .inl inside
        rw [if_neg inside, ioapicLoop_end inside]
        simp [stops]

end Loop

section Walk

variable {mem : Mem} {madt : UInt32}

/-- If the walk ends and reads nothing behind the table, the entries are whole. -/
theorem entryWhole_of_ends {n : Nat} (listed : EntryListed mem madt n)
    (ends : Ends (EntryStops mem madt) (nextEntry mem) (madt + 44))
    (inside : ∀ access, EntryRead mem madt (madt + 44) n access →
      access.Among madt (word32 mem madt 4).toNat) :
    EntryWhole mem madt (madtEntry mem madt n) where
  head := inside _ ⟨listed.1, listed.2, .inl rfl⟩
  body := inside _ ⟨listed.1, listed.2, .inr rfl⟩
  followed := by
    by_contra stuck
    obtain ⟨other, empty⟩ := not_or.mp stuck
    have going : ¬ EntryStops mem madt (madtEntry mem madt n) :=
      not_or.mpr ⟨not_not.mpr listed.2, other⟩
    -- behind an empty entry comes the same one
    have same : nextEntry mem (madtEntry mem madt n) = madtEntry mem madt n := by
      rw [nextEntry, not_not.mp empty]
      exact UInt32.add_zero _
    have visits : Visits (EntryStops mem madt) (nextEntry mem) (madt + 44) (n + 1) := by
      intro k before
      rcases Nat.lt_or_eq_of_le (Nat.le_of_lt_succ before) with earlier | rfl
      · exact listed.1 k earlier
      · exact going
    refine visits.not_ends_of_return (Nat.lt_succ_self n) ?_ ends
    rw [Function.iterate_succ_apply']
    exact same

/-- Behind a whole entry the next one starts in the table or at its end. -/
theorem EntryWhole.next {entry : UInt32} (whole : EntryWhole mem madt entry)
    (other : word8 mem entry 0 ≠ acpiMadtIoapic) :
    (entry - madt).toNat < (nextEntry mem entry - madt).toNat ∧
      (nextEntry mem entry - madt).toNat ≤ (word32 mem madt 4).toNat := by
  have body := whole.body
  have some : (word8 mem entry 1).toNat ≠ 0 := fun zero =>
    whole.followed.resolve_left other (UInt8.toNat_inj.mp zero)
  have bound := (word32 mem madt 4).toNat_lt
  have small := (word8 mem entry 1).toNat_lt
  have first := entry.toNat_lt
  have second := madt.toNat_lt
  rw [Access.Among] at body
  dsimp only at body
  rw [UInt32.toNat_sub] at body
  rw [nextEntry, UInt32.toNat_sub, UInt32.toNat_sub, UInt32.toNat_add, UInt8.toNat_toUInt32]
  omega

theorem ends_of_entryWhole
    (whole : ∀ n, EntryListed mem madt n → EntryWhole mem madt (madtEntry mem madt n)) :
    Ends (EntryStops mem madt) (nextEntry mem) (madt + 44) := by
  refine ends_of_increase (fun entry => (entry - madt).toNat) (word32 mem madt 4).toNat
    fun n visits => ?_
  obtain ⟨inside, other⟩ := not_or.mp (visits n (Nat.lt_succ_self n))
  have listed : EntryListed mem madt n := ⟨visits.mono (Nat.le_succ n), not_not.mp inside⟩
  rw [Function.iterate_succ_apply']
  exact (whole n listed).next other

theorem entryRead_among {n : Nat} {access : Access}
    (whole : EntryWhole mem madt (madtEntry mem madt n))
    (reads : EntryRead mem madt (madt + 44) n access) :
    access.Among madt (word32 mem madt 4).toNat := by
  obtain ⟨-, -, rfl | rfl⟩ := reads
  · exact whole.head
  · exact whole.body

/-- An entry that is returned is as long as an I/O APIC entry. -/
theorem ioapicResult_among {fuel : Nat} {last value : UInt32}
    (found : walk (EntryStops mem madt) (nextEntry mem) fuel (madt + 44) = some last)
    (result : ioapicResult mem madt last = value) (some : value ≠ 0)
    (whole : ∀ n, EntryListed mem madt n → EntryWhole mem madt (madtEntry mem madt n)) :
    Access.Among madt (word32 mem madt 4).toNat ⟨value, 12⟩ := by
  rw [ioapicResult] at result
  by_cases good : last < madtEnd mem madt ∧ word8 mem last 1 = madtIoapicSize
  · rw [if_pos good] at result
    obtain ⟨n, -, visits, -, rfl⟩ := walk_eq_some_iff.mp found
    have body := (whole n ⟨visits, good.1⟩).body
    rw [madtEntry, good.2, result] at body
    exact body
  · rw [if_neg good] at result
    exact absurd result.symm some

/-- The walk over the table ends and stays in it exactly if its entries are whole. -/
theorem ioapicLoop_inside_iff {m : AcpiMachine} (unread : m.entries = []) :
    ((∃ fuel value reached, ioapicLoop madt fuel (madt + 44) m = .ok value reached) ∧
        (∀ fuel, ∀ access ∈ (ioapicLoop madt fuel (madt + 44) m).state.entries,
          access.Among madt (word32 m.mem madt 4).toNat) ∧
        ∀ fuel value reached, ioapicLoop madt fuel (madt + 44) m = .ok value reached →
          value ≠ 0 → Access.Among madt (word32 m.mem madt 4).toNat ⟨value, 12⟩) ↔
      ∀ n, EntryListed m.mem madt n → EntryWhole m.mem madt (madtEntry m.mem madt n) := by
  constructor
  · rintro ⟨⟨fuel, value, returns⟩, inside, -⟩ n listed
    obtain ⟨last, found, -⟩ := ioapicLoop_returns_iff.mp returns
    refine entryWhole_of_ends listed (ends_iff_walk.mpr ⟨fuel, last, found⟩) fun access reads => ?_
    exact inside (n + 1) access
      (mem_ioapicLoop_entries_iff.mpr (.inr ⟨n, Nat.lt_succ_self n, reads⟩))
  · intro whole
    refine ⟨?_, fun fuel access member => ?_, fun fuel value reached run some => ?_⟩
    · obtain ⟨fuel, last, found⟩ := ends_iff_walk.mp (ends_of_entryWhole whole)
      exact ⟨fuel, _, ioapicLoop_returns_iff.mpr ⟨last, found, rfl⟩⟩
    · rw [mem_ioapicLoop_entries_iff, unread] at member
      rcases member with earlier | ⟨n, -, reads⟩
      · exact absurd earlier List.not_mem_nil
      · exact entryRead_among (whole n ⟨reads.1, reads.2.1⟩) reads
    · obtain ⟨last, found, result⟩ := ioapicLoop_returns_iff.mp ⟨reached, run⟩
      exact ioapicResult_among found result some whole

end Walk

section Table

variable {m found : AcpiMachine} {bound : Nat} {madt : UInt32}

theorem getAcpiIoapicTable_found (apic : getApicTable bound m = .ok madt found)
    (some : madt ≠ 0) (fuel : Nat) :
    getAcpiIoapicTable bound fuel m = ioapicLoop madt fuel (madt + 44) found := by
  rw [getAcpiIoapicTable, Prog.bind_ok apic, if_neg some]

/-- The walk over the table that was found ends, and every entry that it reads or returns lies
in the table, exactly if the entries up to the first I/O APIC entry are whole. -/
theorem getAcpiIoapicTable_inside_iff (apic : getApicTable bound m = .ok madt found)
    (some : madt ≠ 0) (unread : m.entries = []) :
    ((∃ fuel value reached, getAcpiIoapicTable bound fuel m = .ok value reached) ∧
        (∀ fuel, ∀ access ∈ (getAcpiIoapicTable bound fuel m).state.entries,
          access.Among madt (word32 m.mem madt 4).toNat) ∧
        ∀ fuel value reached, getAcpiIoapicTable bound fuel m = .ok value reached →
          value ≠ 0 → Access.Among madt (word32 m.mem madt 4).toNat ⟨value, 12⟩) ↔
      ∀ n, EntryListed m.mem madt n → EntryWhole m.mem madt (madtEntry m.mem madt n) := by
  have kept := (findTable_keeps bound madtSig).eq_of_ok apic
  have mem : found.mem = m.mem := congrArg Prod.fst kept
  have entries : found.entries = [] := (congrArg Prod.snd kept).trans unread
  simp only [getAcpiIoapicTable_found apic some, ← mem]
  exact ioapicLoop_inside_iff entries

/-- A machine on which the root pointer leads to a table with one local APIC, whose entry has
the given length byte, and one I/O APIC. -/
def oneIoapic (length : UInt8) : AcpiMachine where
  mem := memoryOf [(0x2011, 0x30), (0x3004, 40), (0x3025, 0x40), (0x4000, 0x41), (0x4001, 0x50),
    (0x4002, 0x49), (0x4003, 0x43), (0x4004, 64), (0x402d, length), (0x4034, 1), (0x4035, 12)]
  rsdp := 0x2000
  entries := []

theorem getAcpiIoapicTable_inside_oneIoapic :
    ((∃ fuel value reached, getAcpiIoapicTable 2 fuel (oneIoapic 8) = .ok value reached) ∧
        (∀ fuel, ∀ access ∈ (getAcpiIoapicTable 2 fuel (oneIoapic 8)).state.entries,
          access.Among 0x4000 (word32 (oneIoapic 8).mem 0x4000 4).toNat) ∧
        ∀ fuel value reached, getAcpiIoapicTable 2 fuel (oneIoapic 8) = .ok value reached →
          value ≠ 0 →
          Access.Among 0x4000 (word32 (oneIoapic 8).mem 0x4000 4).toNat ⟨value, 12⟩) := by
  refine (@getAcpiIoapicTable_inside_iff (oneIoapic 8) (oneIoapic 8) 2 0x4000 rfl (by decide)
    rfl).mpr fun n listed => ?_
  match n, listed with
  | 0, _ => exact ⟨by decide, by decide, .inr (by decide)⟩
  | 1, _ => exact ⟨by decide, by decide, .inl (by decide)⟩
  | n + 2, ⟨visits, _⟩ => exact absurd (.inr (by decide)) (visits 1 (by omega))

/-- The walk stays at an empty entry for ever. -/
theorem getAcpiIoapicTable_emptyEntry :
    ¬ ((∃ fuel value reached, getAcpiIoapicTable 2 fuel (oneIoapic 0) = .ok value reached) ∧
        (∀ fuel, ∀ access ∈ (getAcpiIoapicTable 2 fuel (oneIoapic 0)).state.entries,
          access.Among 0x4000 (word32 (oneIoapic 0).mem 0x4000 4).toNat) ∧
        ∀ fuel value reached, getAcpiIoapicTable 2 fuel (oneIoapic 0) = .ok value reached →
          value ≠ 0 →
          Access.Among 0x4000 (word32 (oneIoapic 0).mem 0x4000 4).toNat ⟨value, 12⟩) := by
  intro inside
  have apic : getApicTable 2 (oneIoapic 0) = .ok 0x4000 (oneIoapic 0) := rfl
  have some : (0x4000 : UInt32) ≠ 0 := by decide
  simp only [getAcpiIoapicTable_found apic some] at inside
  have whole := (ioapicLoop_inside_iff rfl).mp inside 0 ⟨visits_zero, by decide⟩
  exact whole.followed.elim (by decide) (by decide)

end Table

end Sable
