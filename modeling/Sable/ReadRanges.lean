import Sable.HeapRegions

/-!
# Programs that only read

A program that reads memory is described by its value and by the ranges it reads: on every
machine with the given memory it returns the value, adds only such ranges to the record
and changes nothing else.  The rules follow the statements of a program.
-/

namespace Sable

open ByteMemory BigEndian HaltingProgram

section Ranges

variable (base : UInt32) (length : Nat) (access : Access)

/-- The access lies in the `length` bytes at `base`. -/
def Access.Within : Prop :=
  base.toNat ≤ access.addr.toNat ∧ access.addr.toNat + access.len ≤ base.toNat + length

/-- The bytes of the access are among the first `length` ones at `base`; behind the last
address they start again at zero. -/
def Access.Among : Prop :=
  (access.addr - base).toNat + access.len ≤ length

instance : Decidable (access.Among base length) :=
  inferInstanceAs (Decidable (_ ≤ _))

variable {base length access}

/-- The two agree on ranges that do not wrap around. -/
theorem Access.within_iff_among (fits : base.toNat + length < 2 ^ 32) :
    access.Within base length ↔ access.Among base length := by
  have first := base.toNat_lt
  have second := access.addr.toNat_lt
  rw [Access.Within, Access.Among, UInt32.toNat_sub]
  omega

end Ranges

/-- On a machine with the memory `mem` the program returns `value`, and all the ranges it reads
are allowed ones exactly if the condition holds. -/
def ReadsWhen {α : Type} (allowed : Access → Prop) (mem : Mem)
    (program : Prog Halt HeapMachine α) (value : α) (condition : Prop) : Prop :=
  ∃ more, (∀ m : HeapMachine, m.mem = mem →
      program m = .ok value { m with reads := more ++ m.reads }) ∧
    ((∀ access ∈ more, allowed access) ↔ condition)

/-- The program returns `value` and reads allowed ranges only. -/
abbrev Reads {α : Type} (allowed : Access → Prop) (mem : Mem) (program : Prog Halt HeapMachine α)
    (value : α) : Prop :=
  ReadsWhen allowed mem program value True

/-- Run a program without a record of what it reads. -/
def setAside {α : Type} (program : Prog Halt HeapMachine α) : Prog Halt HeapMachine α :=
  fun m =>
    match program m with
    | .ok value reached => .ok value { reached with reads := m.reads }
    | .halt reason reached => .halt reason { reached with reads := m.reads }

section Conditions

variable {α β : Type} {allowed : Access → Prop} {mem : Mem} {early late : Prop}

theorem ReadsWhen.bind {program : Prog Halt HeapMachine α} {next : α → Prog Halt HeapMachine β}
    {value : α} {result : β} (first : ReadsWhen allowed mem program value early)
    (second : ReadsWhen allowed mem (next value) result late) :
    ReadsWhen allowed mem (program >>= next) result (early ∧ late) := by
  obtain ⟨earlier, run, earlyWhen⟩ := first
  obtain ⟨later, runNext, lateWhen⟩ := second
  refine ⟨later ++ earlier, fun m same => ?_, ?_⟩
  · rw [Prog.bind_ok (run m same), runNext { m with reads := earlier ++ m.reads } same,
      List.append_assoc]
  · rw [← earlyWhen, ← lateWhen, List.forall_mem_append, and_comm]

theorem ReadsWhen.ite {condition : Prop} [Decidable condition]
    {yes no : Prog Halt HeapMachine α} {first second : α} {needed : Prop}
    (holds : condition → ReadsWhen allowed mem yes first needed)
    (fails : ¬ condition → ReadsWhen allowed mem no second needed) :
    ReadsWhen allowed mem (if condition then yes else no)
      (if condition then first else second) needed := by
  by_cases decided : condition
  · rw [if_pos decided, if_pos decided]
    exact holds decided
  · rw [if_neg decided, if_neg decided]
    exact fails decided

theorem ReadsWhen.of_iff {program : Prog Halt HeapMachine α} {value : α}
    (reads : ReadsWhen allowed mem program value early) (same : early ↔ late) :
    ReadsWhen allowed mem program value late := by
  obtain ⟨more, run, exactly⟩ := reads
  exact ⟨more, run, exactly.trans same⟩

theorem ReadsWhen.of_eq {program : Prog Halt HeapMachine α} {first second : α}
    (reads : ReadsWhen allowed mem program first early) (same : first = second) :
    ReadsWhen allowed mem program second early :=
  same ▸ reads

/-- A first program that reads allowed ranges only. -/
theorem ReadsWhen.bind_allowed {program : Prog Halt HeapMachine α}
    {next : α → Prog Halt HeapMachine β} {value : α} {result : β}
    (first : Reads allowed mem program value)
    (second : ReadsWhen allowed mem (next value) result late) :
    ReadsWhen allowed mem (program >>= next) result late :=
  (ReadsWhen.bind first second).of_iff ⟨And.right, And.intro trivial⟩

/-- A test after which the program may return early. -/
theorem ReadsWhen.guard_of {condition : Prop} [Decidable condition]
    {no : Prog Halt HeapMachine α} {first second : α}
    (fails : ¬ condition → ReadsWhen allowed mem no second late) :
    ReadsWhen allowed mem (if condition then pure first else no)
      (if condition then first else second) (¬ condition → late) := by
  by_cases decided : condition
  · rw [if_pos decided, if_pos decided]
    exact ⟨[], fun _ _ => rfl, by simp [decided]⟩
  · rw [if_neg decided, if_neg decided]
    exact (fails decided).of_iff ⟨fun holds _ => holds, fun holds => holds decided⟩

theorem ReadsWhen.guard {condition : Prop} [Decidable condition] {no : Prog Halt HeapMachine α}
    {first second : α} (fails : ReadsWhen allowed mem no second late) :
    ReadsWhen allowed mem (if condition then pure first else no)
      (if condition then first else second) (¬ condition → late) :=
  ReadsWhen.guard_of fun _ => fails

/-- A test after which the program may return early, when it has been made before. -/
theorem ReadsWhen.found {condition : Prop} [Decidable condition] {no : Prog Halt HeapMachine α}
    {first second : α} (fails : ReadsWhen allowed mem no second late) :
    ReadsWhen allowed mem (if decide condition = true then pure first else no)
      (if condition then first else second) (¬ condition → late) := by
  have guarded := @ReadsWhen.guard _ _ _ _ condition _ no first second fails
  simpa only [decide_eq_true_eq] using guarded

/-- A test with two ways to go on. -/
theorem ReadsWhen.cases {condition : Prop} [Decidable condition]
    {yes no : Prog Halt HeapMachine α} {first second : α}
    (holds : ReadsWhen allowed mem yes first early)
    (fails : ReadsWhen allowed mem no second late) :
    ReadsWhen allowed mem (if condition then yes else no) (if condition then first else second)
      ((condition → early) ∧ (¬ condition → late)) := by
  by_cases decided : condition
  · rw [if_pos decided, if_pos decided]
    exact holds.of_iff (by simp [decided])
  · rw [if_neg decided, if_neg decided]
    exact fails.of_iff (by simp [decided])

/-- A test without which the program returns. -/
theorem ReadsWhen.only {condition : Prop} [Decidable condition]
    {yes : Prog Halt HeapMachine α} {first second : α}
    (holds : ReadsWhen allowed mem yes first early) :
    ReadsWhen allowed mem (if condition then yes else pure second)
      (if condition then first else second) (condition → early) := by
  by_cases decided : condition
  · rw [if_pos decided, if_pos decided]
    exact holds.of_iff (by simp [decided])
  · rw [if_neg decided, if_neg decided]
    exact ⟨[], fun _ _ => rfl, by simp [decided]⟩

theorem heapByte_readsWhen (addr : UInt32) :
    ReadsWhen allowed mem (heapByte addr) (word8 mem addr 0) (allowed ⟨addr, 1⟩) :=
  ⟨[⟨addr, 1⟩], fun _ same => same ▸ rfl, by simp⟩

theorem heapWord_readsWhen (addr : UInt32) :
    ReadsWhen allowed mem (heapWord addr) (word32 mem addr 0) (allowed ⟨addr, 4⟩) :=
  ⟨[⟨addr, 4⟩], fun _ same => same ▸ rfl, by simp⟩

theorem heapQuad_readsWhen (addr : UInt32) :
    ReadsWhen allowed mem (heapQuad addr) (word64 mem addr 0) (allowed ⟨addr, 8⟩) :=
  ⟨[⟨addr, 8⟩], fun _ same => same ▸ rfl, by simp⟩

end Conditions

section Rules

variable {α β : Type} {allowed : Access → Prop} {mem : Mem}

theorem Reads.ret (value : α) : Reads allowed mem (pure value) value :=
  ⟨[], fun _ _ => rfl, by simp⟩

theorem Reads.bind {program : Prog Halt HeapMachine α} {next : α → Prog Halt HeapMachine β}
    {value : α} {result : β} (first : Reads allowed mem program value)
    (second : Reads allowed mem (next value) result) :
    Reads allowed mem (program >>= next) result :=
  ReadsWhen.bind_allowed first second

theorem Reads.ite {condition : Prop} [Decidable condition] {yes no : Prog Halt HeapMachine α}
    {first second : α} (holds : condition → Reads allowed mem yes first)
    (fails : ¬ condition → Reads allowed mem no second) :
    Reads allowed mem (if condition then yes else no) (if condition then first else second) :=
  ReadsWhen.ite holds fails

/-- A condition that the program has found out before. -/
theorem Reads.found {condition : Prop} [Decidable condition] {yes no : Prog Halt HeapMachine α}
    {first second : α} (holds : condition → Reads allowed mem yes first)
    (fails : ¬ condition → Reads allowed mem no second) :
    Reads allowed mem (if decide condition = true then yes else no)
      (if condition then first else second) := by
  by_cases decided : condition
  · rw [if_pos (decide_eq_true decided), if_pos decided]
    exact holds decided
  · rw [if_neg (by rw [decide_eq_true_eq]; exact decided), if_neg decided]
    exact fails decided

theorem Reads.run {program : Prog Halt HeapMachine α} {value : α}
    (reads : Reads allowed mem program value) (m : HeapMachine) (same : m.mem = mem) :
    ∃ more, program m = .ok value { m with reads := more ++ m.reads } := by
  obtain ⟨more, run, -⟩ := reads
  exact ⟨more, run m same⟩

/-- Any reads at all are allowed. -/
theorem ReadsWhen.reads {program : Prog Halt HeapMachine α} {value : α} {condition : Prop}
    (reads : ReadsWhen allowed mem program value condition) :
    Reads (fun _ => True) mem program value := by
  obtain ⟨more, run, -⟩ := reads
  exact ⟨more, run, by simp⟩

theorem Reads.aside {program : Prog Halt HeapMachine α} {value : α} {wide : Access → Prop}
    (reads : Reads wide mem program value) : Reads allowed mem (setAside program) value := by
  refine ⟨[], fun m same => ?_, by simp⟩
  obtain ⟨more, run⟩ := reads.run m same
  rw [setAside, run]
  rfl

end Rules

section Words

variable {allowed : Access → Prop} {mem : Mem} {addr : UInt32}

/-- A 16-bit word of memory. -/
def heapHalf (addr : UInt32) : Prog Halt HeapMachine UInt16 := do
  heapRead addr 2
  let m ← Prog.get
  return word16 m.mem addr 0

theorem heapByte_reads (inside : allowed ⟨addr, 1⟩) :
    Reads allowed mem (heapByte addr) (word8 mem addr 0) :=
  (heapByte_readsWhen addr).of_iff (iff_true_intro inside)

theorem heapHalf_reads (inside : allowed ⟨addr, 2⟩) :
    Reads allowed mem (heapHalf addr) (word16 mem addr 0) :=
  ⟨[⟨addr, 2⟩], fun _ same => same ▸ rfl, by simpa using inside⟩

theorem heapWord_reads (inside : allowed ⟨addr, 4⟩) :
    Reads allowed mem (heapWord addr) (word32 mem addr 0) :=
  (heapWord_readsWhen addr).of_iff (iff_true_intro inside)

theorem heapQuad_reads (inside : allowed ⟨addr, 8⟩) :
    Reads allowed mem (heapQuad addr) (word64 mem addr 0) :=
  (heapQuad_readsWhen addr).of_iff (iff_true_intro inside)

theorem word8_add (offset : UInt32) (i : Nat) :
    word8 mem (addr + offset) i = word8 mem addr (offset.toNat + i) := by
  have address : ((addr.toNat + offset.toNat) % 2 ^ 32 + i) % 2 ^ 32 =
      (addr.toNat + (offset.toNat + i)) % 2 ^ 32 := by omega
  rw [word8, word8, flat, flat, UInt32.toNat_add, address]

theorem word16_add (offset : UInt32) (i : Nat) :
    word16 mem (addr + offset) i = word16 mem addr (offset.toNat + i) := by
  rw [word16, word16, word8_add, word8_add, Nat.add_assoc]

theorem word64_add (offset : UInt32) (i : Nat) :
    word64 mem (addr + offset) i = word64 mem addr (offset.toNat + i) := by
  rw [word64, word64, word32_add, word32_add, Nat.add_assoc]

/-- The bytes of a comparison up to the first one that differs are among the allowed ranges. -/
def BytesAllowed (allowed : Access → Prop) (mem : Mem) : UInt32 → List UInt8 → Prop
  | _, [] => True
  | addr, byte :: rest => allowed ⟨addr, 1⟩ ∧
      (word8 mem addr 0 = byte → BytesAllowed allowed mem (addr + 1) rest)

/-- The bytes of a range are compared one after the other. -/
theorem heapCompare_readsWhen (addr : UInt32) (bytes : List UInt8) :
    ReadsWhen allowed mem (heapCompare addr bytes)
      (decide (read (flat mem) addr.toNat bytes.length ≠ bytes))
      (BytesAllowed allowed mem addr bytes) := by
  induction bytes generalizing addr with
  | nil => exact (Reads.ret false).of_eq (by simp [ByteMemory.read])
  | cons byte rest ih =>
      have bytes : read (flat mem) addr.toNat (rest.length + 1) =
          word8 mem addr 0 :: read (flat mem) (addr + 1).toNat rest.length := by
        have tail : read (flat mem) (addr.toNat + 1) rest.length =
            read (flat mem) (addr + 1).toNat rest.length := by
          refine List.map_congr_left fun i _ => ?_
          have address : (addr.toNat + 1 + i) % 2 ^ 32 =
              ((addr.toNat + 1) % 2 ^ 32 + i) % 2 ^ 32 := by omega
          rw [flat, flat, UInt32.toNat_add, address]
          rfl
        rw [Nat.add_comm, read_add, tail]
        rfl
      have reads : ReadsWhen allowed mem (heapByte addr >>= fun value =>
          if value ≠ byte then pure true else heapCompare (addr + 1) rest) _ _ :=
        (heapByte_readsWhen addr).bind (ReadsWhen.guard (ih (addr + 1)))
      rw [heapCompare, List.length_cons, bytes, BytesAllowed]
      by_cases same : word8 mem addr 0 = byte
      · simpa [same] using reads
      · simpa [same] using reads

theorem heapCompare_reads {bytes : List UInt8}
    (inside : ∀ i < bytes.length, allowed ⟨addr + UInt32.ofNat i, 1⟩) :
    Reads allowed mem (heapCompare addr bytes)
      (decide (read (flat mem) addr.toNat bytes.length ≠ bytes)) := by
  refine (heapCompare_readsWhen addr bytes).of_iff (iff_true_intro ?_)
  induction bytes generalizing addr with
  | nil => trivial
  | cons byte rest ih =>
      refine ⟨by simpa using inside 0 (by simp), fun _ => ih fun i bounded => ?_⟩
      have next := inside (i + 1) (by simpa using bounded)
      rwa [UInt32.add_assoc, show (1 : UInt32) + UInt32.ofNat i = UInt32.ofNat (i + 1) by
        rw [UInt32.ofNat_add, UInt32.add_comm]; rfl]

end Words

end Sable
