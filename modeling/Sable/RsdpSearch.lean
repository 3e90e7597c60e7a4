import Mathlib.Data.Nat.Find
import Sable.Acpi

/-!
# The search for the root pointer of ACPI

`find_rsdp` goes through the slots of two ranges.  A slot that carries the signature without
the checksum ends the search of its range, so a root pointer behind such a slot is missed; if
none lies before the first root pointer in its range, that one is found.
-/

namespace Sable

open ByteMemory HaltingProgram

section Slots

variable (mem : Mem)

/-- The slot carries the signature of a root pointer. -/
def RsdpSigned (a : Nat) : Prop :=
  read mem a 8 = rsdpSig

/-- The first twenty bytes of the slot add up to zero. -/
def ChecksumValid (a : Nat) : Prop :=
  (read mem a 20).foldl (· + ·) 0 = 0

instance decidableRsdpSigned (a : Nat) : Decidable (RsdpSigned mem a) :=
  inferInstanceAs (Decidable (_ = _))

instance decidableChecksumValid (a : Nat) : Decidable (ChecksumValid mem a) :=
  inferInstanceAs (Decidable (_ = _))

def ValidRsdp (a : Nat) : Prop :=
  RsdpSigned mem a ∧ ChecksumValid mem a

/-- The signature without the checksum. -/
def StrayRsdp (a : Nat) : Prop :=
  RsdpSigned mem a ∧ ¬ ChecksumValid mem a

/-- A slot of sixteen bytes in the range. -/
def RsdpSlot (low high : UInt32) (a : Nat) : Prop :=
  low.toNat ≤ a ∧ a < high.toNat ∧ a % 16 = 0

def Scope1Slot (a : Nat) : Prop :=
  RsdpSlot rsdpScope1Low rsdpScope1High a

def Scope2Slot (a : Nat) : Prop :=
  RsdpSlot rsdpScope2Low rsdpScope2High a

/-- The first root pointer in the order of the search. -/
def FirstRsdp (a : Nat) : Prop :=
  (Scope1Slot a ∨ Scope2Slot a) ∧ ValidRsdp mem a ∧
    ∀ b, Scope1Slot b ∨ Scope2Slot b → ValidRsdp mem b → a ≤ b

end Slots

section Comparisons

variable {mem : Mem} {start : UInt32}

theorem word8_eq {offset : Nat} (room : start.toNat + offset < 2 ^ 32) :
    word8 mem start offset = mem (start.toNat + offset) := by
  rw [word8, flat, Nat.mod_eq_of_lt room]

/-- `memcmp` finds no difference. -/
theorem memcmp_eq_false_iff {bytes : List UInt8} (room : start.toNat + bytes.length < 2 ^ 32) :
    memcmp mem start bytes = false ↔ read mem start.toNat bytes.length = bytes := by
  induction bytes generalizing start with
  | nil => exact iff_of_true rfl rfl
  | cons byte bytes ih =>
      rw [List.length_cons] at room
      have next := @toNat_add_one start (by omega)
      rw [memcmp, List.length_cons, read_succ, List.cons_eq_cons, word8_eq (by omega),
        Nat.add_zero]
      by_cases same : mem start.toNat = byte
      · rw [if_neg (not_not.mpr same), ih (by omega), next]
        exact (and_iff_right same).symm
      · rw [if_pos same]
        exact iff_of_false Bool.noConfusion fun both => same both.1

theorem acpiSum_eq {len : Nat} {sum : UInt8} (room : start.toNat + len < 2 ^ 32) :
    acpiSum mem len start sum = (read mem start.toNat len).foldl (· + ·) sum := by
  induction len generalizing start sum with
  | zero => rfl
  | succ len ih =>
      have next := @toNat_add_one start (by omega)
      rw [acpiSum, read_succ, List.foldl_cons, ih (by omega), next, word8_eq (by omega),
        Nat.add_zero]

theorem verifyAcpiChecksum_iff (room : start.toNat + 20 < 2 ^ 32) :
    verifyAcpiChecksum mem start rsdpChksumLen = true ↔ ChecksumValid mem start.toNat := by
  have len : rsdpChksumLen.toNat = 20 := rfl
  rw [verifyAcpiChecksum, len, acpiSum_eq room, decide_eq_true_eq]
  rfl

end Comparisons

section Ranges

variable {start low high : UInt32} {boundaries : Nat}

/-- A slot without the signature is left behind. -/
theorem rsdpLoop_unsigned {m : AcpiMachine} (room : start.toNat + 20 < 2 ^ 32)
    (other : ¬ RsdpSigned m.mem start.toNat) :
    rsdpLoop (boundaries + 1) start m =
      rsdpLoop boundaries (start + rsdpBoundary) { m with rsdp := start } := by
  have length : rsdpSig.length = 8 := rfl
  have differs : memcmp m.mem start rsdpSig = true := Bool.of_not_eq_false fun same =>
    other ((memcmp_eq_false_iff (by omega)).mp same)
  rw [rsdpLoop, Prog.bind_modify, Prog.bind_get]
  simp only [differs, if_true]

/-- A slot with the signature ends the search. -/
theorem rsdpLoop_signed {m : AcpiMachine} (room : start.toNat + 20 < 2 ^ 32)
    (signed : RsdpSigned m.mem start.toNat) :
    rsdpLoop (boundaries + 1) start m =
      .ok (verifyAcpiChecksum m.mem start rsdpChksumLen) { m with rsdp := start } := by
  have length : rsdpSig.length = 8 := rfl
  have same : memcmp m.mem start rsdpSig = false := (memcmp_eq_false_iff (by omega)).mpr signed
  rw [rsdpLoop, Prog.bind_modify, Prog.bind_get]
  simp only [same, Bool.false_eq_true, if_false]
  cases verifyAcpiChecksum m.mem start rsdpChksumLen <;> rfl

/-- How the search of a range ends: at the first signature if it has the checksum, and
otherwise before every root pointer. -/
theorem rsdpLoop_run (m : AcpiMachine) (room : start.toNat + 16 * boundaries + 20 < 2 ^ 32) :
    ∃ value reached, rsdpLoop boundaries start m = .ok value reached ∧ reached.mem = m.mem ∧
      (value = true → ∃ k < boundaries, reached.rsdp.toNat = start.toNat + 16 * k ∧
        ValidRsdp m.mem (start.toNat + 16 * k) ∧
        ∀ j < k, ¬ RsdpSigned m.mem (start.toNat + 16 * j)) ∧
      (value = false → ∀ k < boundaries, ValidRsdp m.mem (start.toNat + 16 * k) →
        ∃ j < k, StrayRsdp m.mem (start.toNat + 16 * j)) := by
  induction boundaries generalizing start m with
  | zero =>
      exact ⟨false, m, rfl, rfl, fun none => Bool.noConfusion none,
        fun _ k before => absurd before (Nat.not_lt_zero k)⟩
  | succ boundaries ih =>
      have near : start.toNat + 20 < 2 ^ 32 := by omega
      by_cases signed : RsdpSigned m.mem start.toNat
      · rw [rsdpLoop_signed near signed]
        refine ⟨_, _, rfl, rfl, fun good => ?_, fun bad k inside valid => ?_⟩
        · exact ⟨0, Nat.succ_pos _, rfl, ⟨signed, (verifyAcpiChecksum_iff near).mp good⟩,
            fun j before => absurd before (Nat.not_lt_zero j)⟩
        · have wrong : ¬ ChecksumValid m.mem start.toNat := fun right =>
            Bool.eq_false_iff.mp bad ((verifyAcpiChecksum_iff near).mpr right)
          cases k with
          | zero => exact absurd valid.2 wrong
          | succ k => exact ⟨0, Nat.succ_pos k, signed, wrong⟩
      · have next : (start + rsdpBoundary).toNat = start.toNat + 16 := by
          have size : rsdpBoundary.toNat = 16 := rfl
          rw [UInt32.toNat_add, size]
          omega
        have shift (k : Nat) : start.toNat + 16 + 16 * k = start.toNat + 16 * (k + 1) := by omega
        obtain ⟨value, reached, run, mem, found, missed⟩ :=
          @ih (start + rsdpBoundary) { m with rsdp := start } (by omega)
        simp only [next, shift] at found missed
        rw [rsdpLoop_unsigned near signed]
        refine ⟨value, reached, run, mem, fun good => ?_, fun bad k inside valid => ?_⟩
        · obtain ⟨k, inside, place, valid, before⟩ := found good
          refine ⟨k + 1, Nat.succ_lt_succ inside, place, valid, fun j earlier => ?_⟩
          cases j with
          | zero => exact signed
          | succ j => exact before j (Nat.lt_of_succ_lt_succ earlier)
        · cases k with
          | zero => exact absurd valid.1 signed
          | succ k =>
              obtain ⟨j, before, stray⟩ := missed bad k (Nat.lt_of_succ_lt_succ inside) valid
              exact ⟨j + 1, Nat.succ_lt_succ before, stray⟩

/-- The same for the slots of the range. -/
theorem findRsdpInRange_run (m : AcpiMachine) (order : low.toNat ≤ high.toNat)
    (room : high.toNat + 20 < 2 ^ 32) (aligned : low.toNat % 16 = 0)
    (whole : high.toNat % 16 = 0) :
    ∃ value reached, findRsdpInRange low high m = .ok value reached ∧ reached.mem = m.mem ∧
      (value = true → RsdpSlot low high reached.rsdp.toNat ∧ ValidRsdp m.mem reached.rsdp.toNat ∧
        ∀ b, RsdpSlot low high b → RsdpSigned m.mem b → reached.rsdp.toNat ≤ b) ∧
      (value = false → ∀ a, RsdpSlot low high a → ValidRsdp m.mem a →
        ∃ s, RsdpSlot low high s ∧ StrayRsdp m.mem s ∧ s < a) := by
  have slot {a : Nat} (inRange : RsdpSlot low high a) :
      a = low.toNat + 16 * ((a - low.toNat) / 16) ∧
        (a - low.toNat) / 16 < (high.toNat - low.toNat + 15) / 16 := by
    obtain ⟨lower, upper, multiple⟩ := inRange
    omega
  obtain ⟨value, reached, run, mem, found, missed⟩ :=
    @rsdpLoop_run low ((high.toNat - low.toNat + 15) / 16) m (by omega)
  refine ⟨value, reached, run, mem, fun good => ?_, fun bad a inRange valid => ?_⟩
  · obtain ⟨k, inside, place, valid, before⟩ := found good
    rw [place]
    refine ⟨⟨Nat.le_add_right _ _, by omega, by omega⟩, valid, fun b inRange signed => ?_⟩
    obtain ⟨position, -⟩ := slot inRange
    by_contra earlier
    exact before ((b - low.toNat) / 16) (by omega) (position ▸ signed)
  · obtain ⟨position, inside⟩ := slot inRange
    obtain ⟨j, before, stray⟩ := missed bad _ inside (position ▸ valid)
    exact ⟨low.toNat + 16 * j, ⟨Nat.le_add_right _ _, by omega, by omega⟩, stray, by omega⟩

end Ranges

section Search

variable {m : AcpiMachine}

/-- The three ways in which the search goes from a pointer that is not set. -/
theorem findRsdp_run (unset : m.rsdp = 0) :
    ∃ value reached, findRsdp m = .ok value reached ∧
      ((value = true ∧ Scope1Slot reached.rsdp.toNat ∧ ValidRsdp m.mem reached.rsdp.toNat ∧
          ∀ b, Scope1Slot b → RsdpSigned m.mem b → reached.rsdp.toNat ≤ b) ∨
        (∀ a, Scope1Slot a → ValidRsdp m.mem a →
            ∃ s, Scope1Slot s ∧ StrayRsdp m.mem s ∧ s < a) ∧
          ((value = true ∧ Scope2Slot reached.rsdp.toNat ∧ ValidRsdp m.mem reached.rsdp.toNat ∧
              ∀ b, Scope2Slot b → RsdpSigned m.mem b → reached.rsdp.toNat ≤ b) ∨
            value = false ∧ reached.rsdp = 0 ∧ ∀ a, Scope2Slot a → ValidRsdp m.mem a →
              ∃ s, Scope2Slot s ∧ StrayRsdp m.mem s ∧ s < a)) := by
  obtain ⟨first, between, runFirst, memFirst, foundFirst, missedFirst⟩ :=
    @findRsdpInRange_run rsdpScope1Low rsdpScope1High m (by decide) (by decide) rfl rfl
  obtain ⟨second, after, runSecond, -, foundSecond, missedSecond⟩ :=
    @findRsdpInRange_run rsdpScope2Low rsdpScope2High between (by decide) (by decide) rfl rfl
  rw [memFirst] at foundSecond missedSecond
  rw [findRsdp, Prog.bind_get, if_neg (not_not.mpr unset), Prog.bind_ok runFirst]
  cases first with
  | true => exact ⟨true, between, rfl, .inl ⟨rfl, foundFirst rfl⟩⟩
  | false =>
      rw [if_neg Bool.false_ne_true, Prog.bind_ok runSecond]
      cases second with
      | true => exact ⟨true, after, rfl, .inr ⟨missedFirst rfl, .inl ⟨rfl, foundSecond rfl⟩⟩⟩
      | false => exact ⟨false, { after with rsdp := 0 }, rfl, .inr ⟨missedFirst rfl,
          .inr ⟨rfl, rfl, missedSecond rfl⟩⟩⟩

/-- If there is a root pointer there is a first one. -/
theorem exists_firstRsdp {mem : Mem} {a : Nat} (slot : Scope1Slot a ∨ Scope2Slot a)
    (valid : ValidRsdp mem a) : ∃ first, FirstRsdp mem first := by
  classical
  have some : ∃ a, (Scope1Slot a ∨ Scope2Slot a) ∧ ValidRsdp mem a := ⟨a, slot, valid⟩
  exact ⟨Nat.find some, (Nat.find_spec some).1, (Nat.find_spec some).2,
    fun b slot valid => Nat.find_min' some ⟨slot, valid⟩⟩

theorem scope1_lt_scope2 {a b : Nat} (first : Scope1Slot a) (second : Scope2Slot b) : a < b := by
  have low : a < 0x400 := first.2.1
  have high : 0xe0000 ≤ b := second.1
  omega

/-- No stray signature lies before the first root pointer in its range. -/
def NoStrayBefore (mem : Mem) : Prop :=
  ∀ a, FirstRsdp mem a → ∀ s, Scope1Slot s ∧ Scope1Slot a ∨ Scope2Slot s ∧ Scope2Slot a →
    StrayRsdp mem s → a < s

theorem FirstRsdp.unique {mem : Mem} {a b : Nat} (first : FirstRsdp mem a)
    (other : FirstRsdp mem b) : a = b :=
  Nat.le_antisymm (first.2.2 b other.1 other.2.1) (other.2.2 a first.1 first.2.1)

theorem ne_of_stray {mem : Mem} {a s : Nat} (valid : ValidRsdp mem a) (stray : StrayRsdp mem s) :
    a ≠ s :=
  fun same => stray.2 (same ▸ valid.2)

/-- The search has found the first root pointer, or there is none. -/
structure RsdpFound (mem : Mem) (value : Bool) (reached : AcpiMachine) : Prop where
  returns_iff : value = true ↔ ∃ a, (Scope1Slot a ∨ Scope2Slot a) ∧ ValidRsdp mem a
  points : value = true → FirstRsdp mem reached.rsdp.toNat
  null : value = false → reached.rsdp = 0

theorem RsdpFound.of_first {mem : Mem} {reached : AcpiMachine}
    (first : FirstRsdp mem reached.rsdp.toNat) : RsdpFound mem true reached where
  returns_iff := iff_of_true rfl ⟨_, first.1, first.2.1⟩
  points _ := first
  null := Bool.noConfusion

/-- A slot of the first range before which there is no signature. -/
theorem firstRsdp_of_scope1 {mem : Mem} {a : Nat} (slot : Scope1Slot a) (valid : ValidRsdp mem a)
    (before : ∀ b, Scope1Slot b → RsdpSigned mem b → a ≤ b) : FirstRsdp mem a := by
  refine ⟨.inl slot, valid, fun b other good => ?_⟩
  rcases other with inFirst | inSecond
  · exact before b inFirst good.1
  · exact Nat.le_of_lt (scope1_lt_scope2 slot inSecond)

/-- A slot of the second range before which there is no signature in the range, when no root
pointer is in the first range. -/
theorem firstRsdp_of_scope2 {mem : Mem} {a : Nat} (slot : Scope2Slot a) (valid : ValidRsdp mem a)
    (before : ∀ b, Scope2Slot b → RsdpSigned mem b → a ≤ b)
    (none : ∀ {b}, FirstRsdp mem b → ¬ Scope1Slot b) : FirstRsdp mem a := by
  refine ⟨.inr slot, valid, fun b other good => ?_⟩
  rcases other with inFirst | inSecond
  · obtain ⟨first, least⟩ := exists_firstRsdp (.inl inFirst) good
    have early := least.2.2 b (.inl inFirst) good
    have inSecond := least.1.resolve_left (none least)
    exact absurd (scope1_lt_scope2 inFirst inSecond) (Nat.not_lt_of_le early)
  · exact before b inSecond good.1

theorem noStrayBefore_of_found (unset : m.rsdp = 0)
    (found : ∃ value reached, findRsdp m = .ok value reached ∧ RsdpFound m.mem value reached) :
    NoStrayBefore m.mem := by
  obtain ⟨value, reached, run, found⟩ := found
  obtain ⟨_, _, same, ways⟩ := findRsdp_run unset
  obtain ⟨rfl, rfl⟩ := Outcome.ok.inj (run.symm.trans same)
  intro a first s scope stray
  rcases ways with ⟨good, slot, -, before⟩ | ⟨-, ⟨good, slot, -, before⟩ | ⟨bad, -⟩⟩
  · obtain rfl := first.unique (found.points good)
    rcases scope with ⟨inFirst, -⟩ | ⟨-, inSecond⟩
    · exact Nat.lt_of_le_of_ne (before s inFirst stray.1) (ne_of_stray first.2.1 stray)
    · exact absurd (scope1_lt_scope2 slot inSecond) (Nat.lt_irrefl _)
  · obtain rfl := first.unique (found.points good)
    rcases scope with ⟨-, inFirst⟩ | ⟨inSecond, -⟩
    · exact absurd (scope1_lt_scope2 inFirst slot) (Nat.lt_irrefl _)
    · exact Nat.lt_of_le_of_ne (before s inSecond stray.1) (ne_of_stray first.2.1 stray)
  · have good := found.returns_iff.mpr ⟨a, first.1, first.2.1⟩
    exact Bool.noConfusion (bad.symm.trans good)

theorem found_of_noStrayBefore (unset : m.rsdp = 0) (noStray : NoStrayBefore m.mem) :
    ∃ value reached, findRsdp m = .ok value reached ∧ RsdpFound m.mem value reached := by
  obtain ⟨value, reached, run, ways⟩ := findRsdp_run unset
  refine ⟨value, reached, run, ?_⟩
  rcases ways with ⟨rfl, slot, valid, before⟩ | ⟨missed, rest⟩
  · exact .of_first (firstRsdp_of_scope1 slot valid before)
  · -- a root pointer in the first range would have a stray signature before it
    have noFirst {a : Nat} (first : FirstRsdp m.mem a) : ¬ Scope1Slot a := by
      intro slot
      obtain ⟨s, inFirst, stray, before⟩ := missed a slot first.2.1
      exact absurd (noStray a first s (.inl ⟨inFirst, slot⟩) stray) (Nat.lt_asymm before)
    rcases rest with ⟨rfl, slot, valid, before⟩ | ⟨rfl, null, missedSecond⟩
    · exact .of_first (firstRsdp_of_scope2 slot valid before noFirst)
    · refine ⟨iff_of_false Bool.false_ne_true ?_, Bool.noConfusion, fun _ => null⟩
      rintro ⟨b, slot, valid⟩
      obtain ⟨a, first⟩ := exists_firstRsdp slot valid
      have inSecond := first.1.resolve_left (noFirst first)
      obtain ⟨s, inScope, stray, before⟩ := missedSecond a inSecond first.2.1
      exact absurd (noStray a first s (.inr ⟨inScope, inSecond⟩) stray) (Nat.lt_asymm before)

/-- The search finds the first root pointer, if there is one, exactly if no stray signature
lies before it in the same range. -/
theorem findRsdp_found_iff (unset : m.rsdp = 0) :
    (∃ value reached, findRsdp m = .ok value reached ∧ RsdpFound m.mem value reached) ↔
      NoStrayBefore m.mem :=
  ⟨noStrayBefore_of_found unset, found_of_noStrayBefore unset⟩

/-- Memory is zero where the table has no entry. -/
theorem memoryOf_absent {table : List (Nat × UInt8)} {a : Nat}
    (absent : ∀ entry ∈ table, entry.1 ≠ a) : memoryOf table a = 0 := by
  have none : table.lookup a = none := List.lookup_eq_none_iff.mpr fun entry member =>
    bne_iff_ne.mpr (absent entry member).symm
  rw [memoryOf, none]
  rfl

theorem not_signed_of_zero {mem : Mem} {a : Nat} (zero : mem a = 0) : ¬ RsdpSigned mem a := by
  rw [RsdpSigned, read_succ, zero]
  simp [rsdpSig]

theorem RsdpSlot.multiple {a : Nat} (slot : Scope1Slot a ∨ Scope2Slot a) : a % 16 = 0 :=
  slot.elim (fun first => first.2.2) fun second => second.2.2

/-- The signature and a checksum byte. -/
def rsdpBytes (a : Nat) (checksum : UInt8) : List (Nat × UInt8) :=
  [(a, 0x52), (a + 1, 0x53), (a + 2, 0x44), (a + 3, 0x20), (a + 4, 0x50), (a + 5, 0x54),
    (a + 6, 0x52), (a + 7, 0x20), (a + 8, checksum)]

/-- A root pointer in the second range. -/
def oneRsdp : AcpiMachine where
  mem := memoryOf (rsdpBytes 0xe0020 0xe1)
  rsdp := 0
  entries := []

theorem findRsdp_found_oneRsdp :
    ∃ value reached, findRsdp oneRsdp = .ok value reached ∧
      RsdpFound oneRsdp.mem value reached := by
  refine (findRsdp_found_iff rfl).mpr fun a first s slots stray => ?_
  have multiple : s % 16 = 0 :=
    RsdpSlot.multiple (slots.imp And.left And.left)
  have place : s = 0xe0020 := by
    by_contra other
    refine not_signed_of_zero (memoryOf_absent ?_) stray.1
    simp only [rsdpBytes, List.forall_mem_cons, List.not_mem_nil, false_imp_iff, implies_true,
      and_true]
    omega
  subst place
  exact absurd (by decide) stray.2

/-- A root pointer behind a signature without its checksum. -/
def strayBeforeRsdp : AcpiMachine where
  mem := memoryOf (rsdpBytes 0xe0000 0 ++ rsdpBytes 0xe0020 0xe1)
  rsdp := 0
  entries := []

theorem firstRsdp_strayBefore : FirstRsdp strayBeforeRsdp.mem 0xe0020 := by
  refine ⟨.inr ⟨by decide, by decide, by decide⟩, ⟨by decide, by decide⟩, fun b slot valid => ?_⟩
  by_contra before
  have multiple := RsdpSlot.multiple slot
  by_cases stray : b = 0xe0000
  · rw [stray] at valid
    exact absurd valid.2 (by decide)
  · refine not_signed_of_zero (memoryOf_absent ?_) valid.1
    simp only [rsdpBytes, List.cons_append, List.nil_append, List.forall_mem_cons,
      List.not_mem_nil, false_imp_iff, implies_true, and_true]
    omega

/-- The search gives up at the signature. -/
theorem findRsdp_strayBefore : ¬ ∃ value reached, findRsdp strayBeforeRsdp = .ok value reached ∧
    RsdpFound strayBeforeRsdp.mem value reached := by
  intro found
  have order := noStrayBefore_of_found rfl found 0xe0020 firstRsdp_strayBefore 0xe0000
    (.inr ⟨⟨by decide, by decide, by decide⟩, ⟨by decide, by decide, by decide⟩⟩)
    ⟨by decide, by decide⟩
  exact absurd order (by decide)

end Search

end Sable
