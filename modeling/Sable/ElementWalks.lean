import Sable.ReadRanges

/-!
# The walks over extended data elements

`verify_ext_data_elts` walks over the elements of a block of the heap with the size of
the block, `print_ext_data_elts` without one.  Both walks are given here with the elements
they visit.  The first one leaves the array only for the addresses of an ACM element, and
the second one follows it on every array that it accepts.
-/

namespace Sable

open ByteMemory HaltingProgram

section Walks

/-- The walk of `verify_ext_data_elts` with the elements it looks at. -/
def walkElements (verify : UInt32 → UInt32 → Prog Halt HeapMachine Bool) :
    Nat → UInt32 → UInt32 → Prog Halt HeapMachine (Bool × List UInt32)
  | 0, _, _ => Prog.halt .spin
  | fuel + 1, elt, eltsSize => do
      if eltsSize < 8 then return (false, [elt])
      let size ← heapWord (elt + 4)
      if eltsSize < size ∨ size = 0 then return (false, [elt])
      let type ← heapWord elt
      if type = 0 then return (true, [elt])
      let good ← verify type elt
      if ¬ good then return (false, [elt])
      let (accepted, later) ← walkElements verify fuel (elt + size) (eltsSize - size)
      return (accepted, elt :: later)

/-- One element, with what is read of an event log set aside. -/
def verifyEltAside (type elt : UInt32) : Prog Halt HeapMachine Bool :=
  if type = 5 then do
    let size ← heapWord (elt + 4)
    if size ≠ 8 + 8 then return false
    let eventLogPhysAddr ← heapQuad (elt + 8)
    setAside (verifyEvtLog eventLogPhysAddr.toUInt32)
  else verifyElt type elt

def printBiosSpecVerElt (elt : UInt32) : Prog Halt HeapMachine Unit := do
  let _ ← heapHalf (elt + 8)
  let _ ← heapHalf (elt + 10)
  let _ ← heapHalf (elt + 12)

def printAcmAddrs (addrs : UInt32) : Nat → Prog Halt HeapMachine Unit
  | 0 => pure ()
  | count + 1 => do
      let _ ← heapQuad addrs
      printAcmAddrs (addrs + 8) count

def printAcmElt (elt : UInt32) : Prog Halt HeapMachine Unit := do
  let numAcms ← heapWord (elt + 8)
  printAcmAddrs (elt + 12) numAcms.toNat

/-- The last field of an identifier. -/
def printUuidData5 (data5 : UInt32) : Nat → Prog Halt HeapMachine Unit
  | 0 => pure ()
  | count + 1 => do
      let _ ← heapByte data5
      printUuidData5 (data5 + 1) count

def printUuid (uuid : UInt32) : Prog Halt HeapMachine Unit := do
  let _ ← heapWord uuid
  let _ ← heapHalf (uuid + 4)
  let _ ← heapHalf (uuid + 6)
  let _ ← heapHalf (uuid + 8)
  printUuidData5 (uuid + 10) 6

def printCustomElt (elt : UInt32) : Prog Halt HeapMachine Unit := do
  let _ ← heapWord (elt + 4)
  printUuid (elt + 8)

/-- The event log itself is printed by debug builds only. -/
def printEvtLogPtrElt (elt : UInt32) : Prog Halt HeapMachine Unit := do
  let _ ← heapQuad (elt + 8)

def printElt (type elt : UInt32) : Prog Halt HeapMachine Unit :=
  if type = 1 then printBiosSpecVerElt elt
  else if type = 2 then printAcmElt elt
  else if type = 4 then printCustomElt elt
  else if type = 5 then printEvtLogPtrElt elt
  else if type = 7 ∨ type = 8 then pure ()
  else do
    let _ ← heapWord elt
    let _ ← heapWord (elt + 4)

/-- `print_ext_data_elts` with the elements it looks at.  Nothing but the type of an element
ends the loop. -/
def printExtDataElts : Nat → UInt32 → Prog Halt HeapMachine (List UInt32)
  | 0, _ => Prog.halt .spin
  | fuel + 1, elt => do
      let type ← heapWord elt
      if type = 0 then return [elt]
      let type ← heapWord elt
      printElt type elt
      let size ← heapWord (elt + 4)
      let later ← printExtDataElts fuel (elt + size)
      return elt :: later

end Walks

section Values

variable (mem : Mem)

/-- The result of `verify_evt_log`. -/
def evtLogGood (elog : UInt32) : Bool :=
  if elog = 0 then false
  else if read (flat mem) elog.toNat evtlogSignature.length ≠ evtlogSignature then false
  else if word32 mem (elog + 36) 0 ≠ maxEventLogSize then false
  else if word32 mem (elog + 40) 0 < 48 then false
  else if word32 mem (elog + 44) 0 < word32 mem (elog + 40) 0 ∨
      word32 mem (elog + 44) 0 > word32 mem (elog + 36) 0 then false
  else true

/-- The address of an authenticated code module is neither null nor above four gigabytes. -/
def AcmAddrGood (addr : UInt32) : Prop :=
  word64 mem addr 0 ≠ 0 ∧ word64 mem addr 0 < 0x100000000

def acmAddrsGood (addrs : UInt32) : Nat → Bool
  | 0 => true
  | count + 1 =>
      if word64 mem addrs 0 = 0 then false
      else if word64 mem addrs 0 ≥ 0x100000000 then false
      else acmAddrsGood (addrs + 8) count

/-- The result of the check of one element. -/
def eltGood (type elt : UInt32) : Bool :=
  if type = 1 then decide (word32 mem (elt + 4) 0 = 8 + 6)
  else if type = 2 then
    if word32 mem (elt + 4) 0 ≠ 8 + 4 + word32 mem (elt + 8) 0 * 8 then false
    else acmAddrsGood mem (elt + 12) (word32 mem (elt + 8) 0).toNat
  else if type = 4 then decide (¬ word32 mem (elt + 4) 0 < 8 + 16)
  else if type = 5 then
    if word32 mem (elt + 4) 0 ≠ 8 + 8 then false
    else evtLogGood mem (word64 mem (elt + 8) 0).toUInt32
  else if type = 7 then decide (elt ≠ 0)
  else true

/-- The verdict of the walk and the elements it looks at. -/
def visitedElements : Nat → UInt32 → UInt32 → Bool × List UInt32
  | 0, _, _ => (false, [])
  | fuel + 1, elt, eltsSize =>
      if eltsSize < 8 then (false, [elt])
      else if eltsSize < word32 mem (elt + 4) 0 ∨ word32 mem (elt + 4) 0 = 0 then (false, [elt])
      else if word32 mem elt 0 = 0 then (true, [elt])
      else if ¬ eltGood mem (word32 mem elt 0) elt then (false, [elt])
      else
        let rest := visitedElements fuel (elt + word32 mem (elt + 4) 0)
          (eltsSize - word32 mem (elt + 4) 0)
        (rest.1, elt :: rest.2)

end Values

section Elements

variable {mem : Mem} {elts eltsSize elt left : UInt32}

/-- The element lies in the array and `left` bytes are left from it on. -/
def EltPlaced (elts eltsSize elt left : UInt32) : Prop :=
  ∃ offset, offset + left.toNat = eltsSize.toNat ∧ elt = elts + UInt32.ofNat offset

theorem EltPlaced.among_iff (placed : EltPlaced elts eltsSize elt left) (offset len : Nat)
    (near : offset ≤ left.toNat) :
    Access.Among elts eltsSize.toNat ⟨elt + UInt32.ofNat offset, len⟩ ↔
      offset + len ≤ left.toNat := by
  obtain ⟨start, whole, rfl⟩ := placed
  have bound := eltsSize.toNat_lt
  have address : (elts + UInt32.ofNat start + UInt32.ofNat offset - elts).toNat =
      start + offset := by
    rw [UInt32.add_assoc, UInt32.add_comm, UInt32.add_sub_cancel, ← UInt32.ofNat_add]
    exact UInt32.toNat_ofNat_of_lt' (by simp only [UInt32.size]; omega)
  rw [Access.Among, address]
  dsimp only
  omega

theorem EltPlaced.start : EltPlaced elts eltsSize elts eltsSize :=
  ⟨0, Nat.zero_add _, by simp⟩

theorem EltPlaced.next (placed : EltPlaced elts eltsSize elt left) {size : UInt32}
    (inside : ¬ left < size) : EltPlaced elts eltsSize (elt + size) (left - size) := by
  obtain ⟨start, whole, rfl⟩ := placed
  rw [UInt32.not_lt, UInt32.le_iff_toNat_le] at inside
  refine ⟨start + size.toNat, ?_, ?_⟩
  · rw [UInt32.toNat_sub_of_le _ _ (UInt32.le_iff_toNat_le.mpr inside)]
    omega
  · rw [UInt32.ofNat_add, UInt32.ofNat_toNat, UInt32.add_assoc]

end Elements

section Checks

variable {mem : Mem} {allowed : Access → Prop}

/-- The signature and the fields of an event log, up to the first one that is bad, are among
the allowed ranges. -/
def EvtLogAllowed (allowed : Access → Prop) (mem : Mem) (elog : UInt32) : Prop :=
  elog ≠ 0 → BytesAllowed allowed mem elog evtlogSignature ∧
    (read (flat mem) elog.toNat evtlogSignature.length = evtlogSignature →
      allowed ⟨elog + 36, 4⟩ ∧ (word32 mem (elog + 36) 0 = maxEventLogSize →
        allowed ⟨elog + 40, 4⟩ ∧ (¬ word32 mem (elog + 40) 0 < 48 → allowed ⟨elog + 44, 4⟩)))

theorem verifyEvtLog_readsWhen (elog : UInt32) :
    ReadsWhen allowed mem (verifyEvtLog elog) (evtLogGood mem elog)
      (EvtLogAllowed allowed mem elog) := by
  have last : ReadsWhen allowed mem (do
      let nextEventOffset ← heapWord (elog + 44)
      if nextEventOffset < word32 mem (elog + 40) 0 ∨
          nextEventOffset > word32 mem (elog + 36) 0 then return false
      return true) _ _ :=
    (heapWord_readsWhen _).bind (.ite (fun _ => Reads.ret _) fun _ => Reads.ret _)
  have fields : ReadsWhen allowed mem (do
      let size ← heapWord (elog + 36)
      if size ≠ maxEventLogSize then return false
      let pcrEventsOffset ← heapWord (elog + 40)
      if pcrEventsOffset < 48 then return false
      let nextEventOffset ← heapWord (elog + 44)
      if nextEventOffset < pcrEventsOffset ∨ nextEventOffset > size then return false
      return true) _ _ :=
    (heapWord_readsWhen _).bind (.guard ((heapWord_readsWhen _).bind (.guard last)))
  refine ReadsWhen.of_iff (.guard ((heapCompare_readsWhen _ _).bind (.found fields))) ?_
  simp only [EvtLogAllowed, not_not, ne_eq, and_true]

theorem verifyEvtLog_reads (elog : UInt32) :
    Reads (fun _ => True) mem (verifyEvtLog elog) (evtLogGood mem elog) :=
  (@verifyEvtLog_readsWhen mem (fun _ => True) elog).reads

/-- The first addresses up to one that is bad are among the allowed ranges. -/
def AddrsAllowed (allowed : Access → Prop) (mem : Mem) (addrs : UInt32) : Nat → Prop
  | 0 => True
  | count + 1 => allowed ⟨addrs, 8⟩ ∧
      (AcmAddrGood mem addrs → AddrsAllowed allowed mem (addrs + 8) count)

theorem acmAddrsLoop_reads (addrs : UInt32) (count : Nat) :
    ReadsWhen allowed mem (acmAddrsLoop addrs count) (acmAddrsGood mem addrs count)
      (AddrsAllowed allowed mem addrs count) := by
  induction count generalizing addrs with
  | zero => exact Reads.ret _
  | succ count ih =>
      refine (heapQuad_readsWhen addrs).bind ?_
      refine .ite (fun null => ?_) fun present => .ite (fun high => ?_) fun low => ?_
      · exact ReadsWhen.of_iff (Reads.ret _) (by simp [AcmAddrGood, null])
      · refine ReadsWhen.of_iff (Reads.ret _) ?_
        rw [AcmAddrGood, ← UInt64.not_le]
        simp [high]
      · exact (ih _).of_iff ⟨fun kept _ => kept, fun kept => kept ⟨present, UInt64.not_le.mp low⟩⟩

/-- The ranges that the check of an element reads behind the size of the element. -/
def EltAllowed (allowed : Access → Prop) (mem : Mem) (type elt : UInt32) : Prop :=
  (type = 2 → allowed ⟨elt + 8, 4⟩ ∧
    (word32 mem (elt + 4) 0 = 8 + 4 + word32 mem (elt + 8) 0 * 8 →
      AddrsAllowed allowed mem (elt + 12) (word32 mem (elt + 8) 0).toNat)) ∧
  (type = 5 → word32 mem (elt + 4) 0 = 8 + 8 → allowed ⟨elt + 8, 8⟩)

theorem verifyEltAside_reads (type elt : UInt32) (header : allowed ⟨elt + 4, 4⟩) :
    ReadsWhen allowed mem (verifyEltAside type elt) (eltGood mem type elt)
      (EltAllowed allowed mem type elt) := by
  have size : Reads allowed mem (heapWord (elt + 4)) (word32 mem (elt + 4) 0) :=
    heapWord_reads header
  by_cases log : type = 5
  · have good : eltGood mem type elt = if word32 mem (elt + 4) 0 ≠ 8 + 8 then false
        else evtLogGood mem (word64 mem (elt + 8) 0).toUInt32 := by
      rw [log]
      rfl
    rw [verifyEltAside, if_pos log, good, EltAllowed, log]
    refine ReadsWhen.bind_allowed size ((ReadsWhen.guard
      ((heapQuad_readsWhen _).bind (Reads.aside (verifyEvtLog_reads _)))).of_iff ?_)
    simp
  rw [verifyEltAside, if_neg log, verifyElt, eltGood]
  have none (other : type ≠ 2) : True ↔ EltAllowed allowed mem type elt := by
    simp [EltAllowed, other, log]
  refine .ite (fun bios => ?_) fun _ => .ite (fun acm => ?_) fun noAcm =>
    .ite (fun _ => ?_) fun _ => .ite (fun five => absurd five log) fun _ =>
    .ite (fun _ => ?_) fun _ => ?_
  · exact ReadsWhen.bind_allowed size (ReadsWhen.of_iff (Reads.ret _) (none (by rw [bios]; decide)))
  · refine ReadsWhen.bind_allowed size (((heapWord_readsWhen _).bind
      (ReadsWhen.guard (acmAddrsLoop_reads _ _))).of_iff ?_)
    simp [EltAllowed, acm]
  · exact ReadsWhen.bind_allowed size (ReadsWhen.of_iff (Reads.ret _) (none noAcm))
  · exact ReadsWhen.of_iff (Reads.ret _) (none noAcm)
  · exact ReadsWhen.of_iff (Reads.ret _) (none noAcm)

/-- The ranges that the check of an element reads, with those of its event log. -/
def EltNeeds (allowed : Access → Prop) (mem : Mem) (type elt : UInt32) : Prop :=
  (type = 1 ∨ type = 2 ∨ type = 4 ∨ type = 5 → allowed ⟨elt + 4, 4⟩) ∧
    EltAllowed allowed mem type elt ∧
    (type = 5 → word32 mem (elt + 4) 0 = 8 + 8 →
      EvtLogAllowed allowed mem (word64 mem (elt + 8) 0).toUInt32)

theorem verifyElt_readsWhen (type elt : UInt32) :
    ReadsWhen allowed mem (verifyElt type elt) (eltGood mem type elt)
      (EltNeeds allowed mem type elt) := by
  have size : ReadsWhen allowed mem (heapWord (elt + 4)) _ _ := heapWord_readsWhen _
  have acm : ReadsWhen allowed mem (verifyAcmElt elt) _ _ :=
    size.bind ((heapWord_readsWhen _).bind (.guard (acmAddrsLoop_reads _ _)))
  have log : ReadsWhen allowed mem (verifyEvtLogPtrElt elt) _ _ :=
    size.bind (.guard ((heapQuad_readsWhen _).bind (verifyEvtLog_readsWhen _)))
  refine ReadsWhen.of_iff (.cases (size.bind (Reads.ret _)) (.cases acm (.cases
    (size.bind (Reads.ret _)) (.cases log (.cases (Reads.ret _) (Reads.ret _)))))) ?_
  rw [EltNeeds, EltAllowed]
  by_cases one : type = 1
  · simp [one]
  by_cases two : type = 2
  · simp [two]
  by_cases four : type = 4
  · simp [four]
  by_cases five : type = 5
  · simp [five, imp_and]
  · simp [one, two, four, five]

theorem verifyElt_reads (type elt : UInt32) :
    Reads (fun _ => True) mem (verifyElt type elt) (eltGood mem type elt) :=
  (@verifyElt_readsWhen mem (fun _ => True) type elt).reads

end Checks

section Walk

variable (mem : Mem) (elt left : UInt32)

/-- An element that is checked, since its header is good and it is not the last one. -/
structure EltChecked : Prop where
  header : ¬ left < 8
  inside : ¬ left < word32 mem (elt + 4) 0
  positive : word32 mem (elt + 4) 0 ≠ 0
  inner : word32 mem elt 0 ≠ 0

/-- The elements that the walk reaches, with the number of bytes that are left. -/
inductive EltReached : UInt32 → UInt32 → UInt32 → UInt32 → Prop
  | here {elt left : UInt32} : EltReached elt left elt left
  | next {elt left other rest : UInt32} : EltChecked mem elt left →
      eltGood mem (word32 mem elt 0) elt →
      EltReached (elt + word32 mem (elt + 4) 0) (left - word32 mem (elt + 4) 0) other rest →
      EltReached elt left other rest

variable {mem elt left}

/-- What holds of all elements that are checked, in steps. -/
theorem forall_eltReached_iff {needed : UInt32 → UInt32 → Prop} :
    (∀ other rest, EltReached mem elt left other rest → EltChecked mem other rest →
        needed other rest) ↔
      (EltChecked mem elt left → needed elt left ∧
        (eltGood mem (word32 mem elt 0) elt → ∀ other rest,
          EltReached mem (elt + word32 mem (elt + 4) 0) (left - word32 mem (elt + 4) 0) other rest →
          EltChecked mem other rest → needed other rest)) := by
  constructor
  · intro all checked
    exact ⟨all _ _ .here checked, fun good other rest reached =>
      all other rest (.next checked good reached)⟩
  · intro steps other rest reached checked
    cases reached with
    | here => exact (steps checked).1
    | next first good reached => exact (steps first).2 good other rest reached checked

/-- The walk with a check of elements that reads allowed ranges under some condition.  The
headers of the elements are always allowed. -/
theorem walkElements_reads {allowed : Access → Prop} (inv : UInt32 → UInt32 → Prop)
    {verify : UInt32 → UInt32 → Prog Halt HeapMachine Bool} {needed : UInt32 → UInt32 → Prop}
    (header : ∀ elt left, inv elt left → ¬ left < 8 → allowed ⟨elt, 4⟩ ∧ allowed ⟨elt + 4, 4⟩)
    (check : ∀ elt left, inv elt left → EltChecked mem elt left →
      ReadsWhen allowed mem (verify (word32 mem elt 0) elt) (eltGood mem (word32 mem elt 0) elt)
        (needed elt left))
    (next : ∀ elt left, inv elt left → EltChecked mem elt left →
      inv (elt + word32 mem (elt + 4) 0) (left - word32 mem (elt + 4) 0))
    {fuel : Nat} (enough : left.toNat < fuel) (start : inv elt left) :
    ReadsWhen allowed mem (walkElements verify fuel elt left) (visitedElements mem fuel elt left)
      (∀ other rest, EltReached mem elt left other rest → EltChecked mem other rest →
        needed other rest) := by
  induction fuel generalizing elt left with
  | zero => exact absurd enough (Nat.not_lt_zero _)
  | succ fuel ih =>
      refine ReadsWhen.of_iff ?_ forall_eltReached_iff.symm
      have refused (value : Bool × List UInt32) {late : Prop}
          (failed : ¬ EltChecked mem elt left) :
          ReadsWhen allowed mem (pure value) value (EltChecked mem elt left → late) :=
        ReadsWhen.of_iff (Reads.ret _) (iff_of_true trivial fun checked => absurd checked failed)
      refine .ite (fun short => refused _ fun checked => checked.header short) fun long => ?_
      obtain ⟨typeAllowed, sizeAllowed⟩ := header elt left start long
      refine .bind_allowed (heapWord_reads sizeAllowed) ?_
      refine .ite (fun bad => refused _ fun checked => ?_) fun size => ?_
      · exact bad.elim checked.inside checked.positive
      refine .bind_allowed (heapWord_reads typeAllowed) ?_
      refine .ite (fun last => refused _ fun checked => checked.inner last) fun inner => ?_
      rw [not_or] at size
      have checked : EltChecked mem elt left := ⟨long, size.1, size.2, inner⟩
      have shorter : (left - word32 mem (elt + 4) 0).toNat < fuel := by
        have positive : 0 < (word32 mem (elt + 4) 0).toNat :=
          Nat.pos_of_ne_zero fun zero => size.2 (UInt32.toNat_inj.mp zero)
        have inside := UInt32.le_iff_toNat_le.mp (UInt32.not_lt.mp size.1)
        rw [UInt32.toNat_sub_of_le _ _ (UInt32.not_lt.mp size.1)]
        omega
      refine ReadsWhen.of_iff ?_ (forall_prop_of_true checked).symm
      refine (check elt left start checked).bind ?_
      have rest := ih shorter (next elt left start checked)
      have later : ReadsWhen allowed mem
          (walkElements verify fuel (elt + word32 mem (elt + 4) 0)
              (left - word32 mem (elt + 4) 0) >>= fun visited =>
            pure (visited.1, elt :: visited.2)) _ _ :=
        rest.bind (Reads.ret _)
      refine (ReadsWhen.guard later).of_iff ?_
      simp only [not_not, and_true]

end Walk

section Bounds

variable {mem : Mem} {elts eltsSize elt left : UInt32}

theorem addrsAllowed_iff (placed : EltPlaced elts eltsSize elt left) {start count : Nat}
    (near : start ≤ left.toNat) :
    AddrsAllowed (Access.Among elts eltsSize.toNat) mem (elt + UInt32.ofNat start) count ↔
      start + 8 * count ≤ left.toNat ∨ ∃ i < count, start + 8 * i + 8 ≤ left.toNat ∧
        ¬ AcmAddrGood mem (elt + UInt32.ofNat (start + 8 * i)) := by
  induction count generalizing start with
  | zero => exact iff_of_true trivial (.inl near)
  | succ count ih =>
      rw [AddrsAllowed, placed.among_iff start 8 near]
      have address : elt + UInt32.ofNat start + 8 = elt + UInt32.ofNat (start + 8) := by
        rw [UInt32.add_assoc, UInt32.ofNat_add]
        rfl
      rw [address]
      constructor
      · rintro ⟨first, rest⟩
        by_cases good : AcmAddrGood mem (elt + UInt32.ofNat start)
        · cases (ih first).mp (rest good) with
          | inl whole => exact .inl (by omega)
          | inr bad =>
              obtain ⟨i, bounded, inside, bad⟩ := bad
              refine .inr ⟨i + 1, by omega, by omega, ?_⟩
              rwa [show start + 8 * (i + 1) = start + 8 + 8 * i by omega]
        · exact .inr ⟨0, Nat.succ_pos _, first, good⟩
      · intro kept
        have first : start + 8 ≤ left.toNat := by
          rcases kept with whole | ⟨i, -, inside, -⟩ <;> omega
        refine ⟨first, fun good => (ih first).mpr ?_⟩
        rcases kept with whole | ⟨i, bounded, inside, bad⟩
        · exact .inl (by omega)
        · cases i with
          | zero => exact absurd good bad
          | succ i =>
              refine .inr ⟨i, by omega, by omega, ?_⟩
              rwa [show start + 8 + 8 * i = start + 8 * (i + 1) by omega]

/-- The count of an ACM element is among the bytes that are left.  If the element is as large
as its count says, in 32 bits, the addresses are among these bytes as well, at least up to
the first one that is bad. -/
def AcmEltFits (mem : Mem) (elt left : UInt32) : Prop :=
  12 ≤ left.toNat ∧
    (word32 mem (elt + 4) 0 = 8 + 4 + word32 mem (elt + 8) 0 * 8 →
      12 + 8 * (word32 mem (elt + 8) 0).toNat ≤ left.toNat ∨
        ∃ i < (word32 mem (elt + 8) 0).toNat, 12 + 8 * i + 8 ≤ left.toNat ∧
          ¬ AcmAddrGood mem (elt + UInt32.ofNat (12 + 8 * i)))

theorem eltAllowed_iff (placed : EltPlaced elts eltsSize elt left)
    (checked : EltChecked mem elt left) :
    EltAllowed (Access.Among elts eltsSize.toNat) mem (word32 mem elt 0) elt ↔
      (word32 mem elt 0 = 2 → AcmEltFits mem elt left) := by
  have header : 8 ≤ left.toNat := Nat.le_of_not_lt checked.header
  have count : Access.Among elts eltsSize.toNat ⟨elt + 8, 4⟩ ↔ 12 ≤ left.toNat :=
    placed.among_iff 8 4 header
  have pointer (log : word32 mem (elt + 4) 0 = 8 + 8) :
      Access.Among elts eltsSize.toNat ⟨elt + 8, 8⟩ := by
    have inside := UInt32.le_iff_toNat_le.mp (UInt32.not_lt.mp checked.inside)
    rw [log] at inside
    exact (placed.among_iff 8 8 header).mpr inside
  rw [EltAllowed, AcmEltFits, count]
  constructor
  · intro allowed acm
    refine ⟨(allowed.1 acm).1, fun size => ?_⟩
    exact (addrsAllowed_iff placed (allowed.1 acm).1).mp ((allowed.1 acm).2 size)
  · intro fits
    refine ⟨fun acm => ⟨(fits acm).1, fun size => ?_⟩, fun _ log => pointer log⟩
    exact (addrsAllowed_iff placed (fits acm).1).mpr ((fits acm).2 size)

/-- What the walk over an array reads, but for event logs. -/
def elementReads (mem : Mem) (elts eltsSize : UInt32) : List Access :=
  (walkElements verifyEltAside (eltsSize.toNat + 1) elts eltsSize (.start mem)).state.reads

theorem header_among (placed : EltPlaced elts eltsSize elt left) (long : ¬ left < 8) :
    Access.Among elts eltsSize.toNat ⟨elt, 4⟩ ∧ Access.Among elts eltsSize.toNat ⟨elt + 4, 4⟩ := by
  have header : 8 ≤ left.toNat := Nat.le_of_not_lt long
  have type := placed.among_iff 0 4 (Nat.zero_le _)
  rw [show UInt32.ofNat 0 = 0 from rfl, UInt32.add_zero] at type
  have size := placed.among_iff 4 4 (by omega)
  exact ⟨type.mpr (by omega), size.mpr (by omega)⟩

theorem elementReads_inside_iff (mem : Mem) (elts eltsSize : UInt32) :
    (∀ access ∈ elementReads mem elts eltsSize, access.Among elts eltsSize.toNat) ↔
      ∀ elt left, EltReached mem elts eltsSize elt left → EltChecked mem elt left →
        word32 mem elt 0 = 2 → AcmEltFits mem elt left := by
  have reads : ReadsWhen (Access.Among elts eltsSize.toNat) mem
      (walkElements verifyEltAside (eltsSize.toNat + 1) elts eltsSize) _ _ :=
    walkElements_reads (EltPlaced elts eltsSize) (fun elt left => header_among)
      (fun elt left placed checked => (verifyEltAside_reads _ _
        (header_among placed checked.header).2).of_iff (eltAllowed_iff placed checked))
      (fun elt left placed checked => placed.next checked.inside) (Nat.lt_succ_self _) .start
  obtain ⟨more, run, exactly⟩ := reads
  rw [← exactly, elementReads, run _ rfl, Outcome.state_ok, HeapMachine.start, List.append_nil]

/-- The walk ends whenever it may take more steps than the array has bytes. -/
theorem walkElements_run (m : HeapMachine) {fuel : Nat} (enough : left.toNat < fuel) :
    ∃ more, walkElements verifyElt fuel elt left m =
      .ok (visitedElements m.mem fuel elt left) { m with reads := more ++ m.reads } := by
  have reads : ReadsWhen (fun _ => True) m.mem (walkElements verifyElt fuel elt left) _ _ :=
    walkElements_reads (fun _ _ => True) (fun _ _ _ _ => ⟨trivial, trivial⟩)
      (fun elt _ _ _ => verifyElt_reads _ elt) (fun _ _ _ _ => trivial) enough trivial
  exact reads.reads.run m rfl

theorem extDataEltsLoop_eq_walk {fuel other : Nat} (enough : left.toNat < fuel)
    (more : left.toNat < other) :
    extDataEltsLoop other elt left =
      walkElements verifyElt fuel elt left >>= fun visited => pure visited.1 := by
  induction fuel generalizing elt left other with
  | zero => exact absurd enough (Nat.not_lt_zero _)
  | succ fuel ih =>
      cases other with
      | zero => exact absurd more (Nat.not_lt_zero _)
      | succ other =>
          rw [extDataEltsLoop, walkElements]
          by_cases short : left < 8
          · rw [if_pos short, if_pos short]
            rfl
          rw [if_neg short, if_neg short, Prog.bind_bind]
          refine congrArg (heapWord (elt + 4) >>= ·) (funext fun size => ?_)
          by_cases bad : left < size ∨ size = 0
          · rw [if_pos bad, if_pos bad]
            rfl
          rw [if_neg bad, if_neg bad, Prog.bind_bind]
          refine congrArg (heapWord elt >>= ·) (funext fun type => ?_)
          by_cases last : type = 0
          · rw [if_pos last, if_pos last]
            rfl
          rw [if_neg last, if_neg last, Prog.bind_bind]
          refine congrArg (verifyElt type elt >>= ·) (funext fun good => ?_)
          cases good with
          | false => rfl
          | true =>
              rw [not_or] at bad
              have positive : 0 < size.toNat :=
                Nat.pos_of_ne_zero fun zero => bad.2 (UInt32.toNat_inj.mp zero)
              have inside := UInt32.le_iff_toNat_le.mp (UInt32.not_lt.mp bad.1)
              have shorter : (left - size).toNat = left.toNat - size.toNat :=
                UInt32.toNat_sub_of_le _ _ (UInt32.not_lt.mp bad.1)
              have rest := @ih (elt + size) (left - size) other (by omega) (by omega)
              rw [if_neg (by decide), if_neg (by decide), Prog.bind_bind, rest]
              rfl

/-- `verify_ext_data_elts` ends on every array, and it stays inside the array exactly if the
ACM elements that it checks fit. -/
theorem verifyExtDataElts_inside_iff (mem : Mem) (elts eltsSize : UInt32) :
    ((∀ fuel > eltsSize.toNat, ∀ m : HeapMachine, m.mem = mem →
          ∃ accepted visits reached,
            walkElements verifyElt fuel elts eltsSize m = .ok (accepted, visits) reached ∧
              verifyExtDataElts elts eltsSize m = .ok accepted reached) ∧
        ∀ access ∈ elementReads mem elts eltsSize, access.Among elts eltsSize.toNat) ↔
      ∀ elt left, EltReached mem elts eltsSize elt left → EltChecked mem elt left →
        word32 mem elt 0 = 2 → AcmEltFits mem elt left := by
  rw [elementReads_inside_iff]
  refine and_iff_right fun fuel enough m same => ?_
  obtain ⟨more, run⟩ := walkElements_run m enough
  refine ⟨_, _, _, run, ?_⟩
  rw [verifyExtDataElts, extDataEltsLoop_eq_walk enough (Nat.lt_succ_self _), Prog.bind_ok run]
  rfl

/-- An array with an ACM element of eight bytes at `0x1000`. -/
def acmAtEnd : Mem :=
  memoryOf [(0x1000, 2), (0x1004, 8)]

/-- The count of the only element is read behind the array. -/
theorem verifyExtDataElts_reads_behind :
    ¬ ((∀ fuel > (8 : UInt32).toNat, ∀ m : HeapMachine, m.mem = acmAtEnd →
          ∃ accepted visits reached,
            walkElements verifyElt fuel 0x1000 8 m = .ok (accepted, visits) reached ∧
              verifyExtDataElts 0x1000 8 m = .ok accepted reached) ∧
        ∀ access ∈ elementReads acmAtEnd 0x1000 8, access.Among 0x1000 (8 : UInt32).toNat) := by
  rintro ⟨-, inside⟩
  have outside : (⟨0x1008, 4⟩ : Access) ∈ elementReads acmAtEnd 0x1000 8 := by decide
  exact absurd (inside _ outside) (by rw [Access.Among]; decide)

end Bounds

section Printing

variable {mem : Mem} {elts eltsSize elt left : UInt32} {fuel : Nat} {visits : List UInt32}

theorem printAcmAddrs_reads (addrs : UInt32) (count : Nat) :
    Reads (fun _ => True) mem (printAcmAddrs addrs count) () := by
  induction count generalizing addrs with
  | zero => exact Reads.ret _
  | succ count ih => exact (heapQuad_reads trivial).bind (ih _)

theorem printUuidData5_reads (data5 : UInt32) (count : Nat) :
    Reads (fun _ => True) mem (printUuidData5 data5 count) () := by
  induction count generalizing data5 with
  | zero => exact Reads.ret _
  | succ count ih => exact (heapByte_reads trivial).bind (ih _)

/-- Printing one element always ends. -/
theorem printElt_reads (type elt : UInt32) :
    Reads (fun _ => True) mem (printElt type elt) () := by
  have word (addr : UInt32) : Reads (fun _ => True) mem (heapWord addr) (word32 mem addr 0) :=
    heapWord_reads trivial
  have half (addr : UInt32) : Reads (fun _ => True) mem (heapHalf addr) (word16 mem addr 0) :=
    heapHalf_reads trivial
  rw [printElt]
  split_ifs
  · exact (half _).bind ((half _).bind ((half _).bind (Reads.ret _)))
  · exact (word _).bind (printAcmAddrs_reads _ _)
  · refine (word _).bind ((word _).bind ((half _).bind ((half _).bind ((half _).bind ?_))))
    exact printUuidData5_reads _ _
  · exact (heapQuad_reads trivial).bind (Reads.ret _)
  · exact Reads.ret _
  · exact (word _).bind ((word _).bind (Reads.ret _))

/-- On an array that is accepted, the walk is at its last element or goes on behind one. -/
theorem visitedElements_accepted
    (accepted : visitedElements mem (fuel + 1) elt left = (true, visits)) :
    ¬ left < 8 ∧ ((word32 mem elt 0 = 0 ∧ visits = [elt]) ∨
      EltChecked mem elt left ∧ eltGood mem (word32 mem elt 0) elt ∧
        ∃ later, visitedElements mem fuel (elt + word32 mem (elt + 4) 0)
          (left - word32 mem (elt + 4) 0) = (true, later) ∧ visits = elt :: later) := by
  rw [visitedElements] at accepted
  by_cases short : left < 8
  · rw [if_pos short] at accepted
    cases accepted
  rw [if_neg short] at accepted
  by_cases bad : left < word32 mem (elt + 4) 0 ∨ word32 mem (elt + 4) 0 = 0
  · rw [if_pos bad] at accepted
    cases accepted
  rw [if_neg bad] at accepted
  rw [not_or] at bad
  refine ⟨short, ?_⟩
  by_cases last : word32 mem elt 0 = 0
  · rw [if_pos last] at accepted
    cases accepted
    exact .inl ⟨last, rfl⟩
  rw [if_neg last] at accepted
  by_cases good : eltGood mem (word32 mem elt 0) elt = true
  · rw [if_neg (not_not.mpr good), Prod.mk.injEq] at accepted
    exact .inr ⟨⟨short, bad.1, bad.2, last⟩, good, _,
      Prod.ext accepted.1 rfl, accepted.2.symm⟩
  · rw [if_pos good] at accepted
    cases accepted

/-- The walk with a size and the one without a size visit the same elements. -/
theorem printExtDataElts_reads
    (accepted : visitedElements mem fuel elt left = (true, visits)) {other : Nat}
    (enough : fuel ≤ other) :
    Reads (fun _ => True) mem (printExtDataElts other elt) visits := by
  induction fuel generalizing elt left visits other with
  | zero => cases accepted
  | succ fuel ih =>
      obtain ⟨other, rfl⟩ := Nat.exists_eq_add_of_le' (Nat.le_trans (Nat.le_add_left 1 fuel) enough)
      rw [printExtDataElts]
      refine (heapWord_reads trivial).bind ?_
      obtain ⟨-, ⟨last, rfl⟩ | ⟨checked, -, later, rest, rfl⟩⟩ := visitedElements_accepted accepted
      · rw [if_pos last]
        exact Reads.ret _
      · rw [if_neg checked.inner]
        refine (heapWord_reads trivial).bind ((printElt_reads _ _).bind ?_)
        refine (heapWord_reads trivial).bind ?_
        exact (ih rest (by omega)).bind (Reads.ret _)

theorem visitedElements_inside (placed : EltPlaced elts eltsSize elt left)
    (accepted : visitedElements mem fuel elt left = (true, visits)) :
    (∃ last, visits.getLast? = some last ∧ word32 mem last 0 = 0) ∧
      ∀ visit ∈ visits, Access.Among elts eltsSize.toNat ⟨visit, 8⟩ := by
  induction fuel generalizing elt left visits with
  | zero => cases accepted
  | succ fuel ih =>
      obtain ⟨long, here⟩ := visitedElements_accepted accepted
      have header := placed.among_iff 0 8 (Nat.zero_le _)
      rw [show UInt32.ofNat 0 = 0 from rfl, UInt32.add_zero] at header
      have inside := header.mpr (Nat.le_trans (by decide) (Nat.le_of_not_lt long))
      obtain ⟨last, rfl⟩ | ⟨checked, -, later, rest, rfl⟩ := here
      · exact ⟨⟨elt, rfl, last⟩, by simpa using inside⟩
      · obtain ⟨⟨last, isLast, type⟩, others⟩ := ih (placed.next checked.inside) rest
        refine ⟨⟨last, ?_, type⟩, List.forall_mem_cons.mpr ⟨inside, others⟩⟩
        rw [List.getLast?_cons, isLast]
        rfl

/-- On an array that `verify_ext_data_elts` accepts, `print_ext_data_elts` ends and visits the
same elements, of which the last one is the end of the array.  This is about builds with `NDEBUG`:
others print the events of a log as well, and that loop need not end. -/
theorem printExtDataElts_follows {m reached : HeapMachine}
    (accepted : verifyExtDataElts elts eltsSize m = .ok true reached) :
    ∃ visits, walkElements verifyElt (eltsSize.toNat + 1) elts eltsSize m =
        .ok (true, visits) reached ∧
      (∀ fuel > eltsSize.toNat, ∀ other : HeapMachine, other.mem = m.mem →
        ∃ printed, printExtDataElts fuel elts other = .ok visits printed) ∧
      (∃ last, visits.getLast? = some last ∧ word32 m.mem last 0 = 0) ∧
      ∀ visit ∈ visits, Access.Among elts eltsSize.toNat ⟨visit, 8⟩ := by
  obtain ⟨more, run⟩ := walkElements_run m (Nat.lt_succ_self eltsSize.toNat)
  rw [verifyExtDataElts, extDataEltsLoop_eq_walk (Nat.lt_succ_self _) (Nat.lt_succ_self _),
    Prog.bind_ok run] at accepted
  cases visited : visitedElements m.mem (eltsSize.toNat + 1) elts eltsSize with
  | mk verdict visits =>
      rw [visited] at accepted run
      cases accepted
      refine ⟨visits, run, fun fuel enough other same => ?_,
        visitedElements_inside .start visited⟩
      obtain ⟨printed, print⟩ := (printExtDataElts_reads visited enough).run other same
      exact ⟨_, print⟩

/-- An array at `0x1000` with an element of an unknown type before its end. -/
def unknownElement : Mem :=
  memoryOf [(0x1000, 9), (0x1004, 5), (0x1009, 8)]

theorem printExtDataElts_follows_unknownElement :
    ∃ visits, walkElements verifyElt 15 0x1000 14 (.start unknownElement) =
        .ok (true, visits) (verifyExtDataElts 0x1000 14 (.start unknownElement)).state ∧
      (∀ fuel > 14, ∀ other : HeapMachine, other.mem = unknownElement →
        ∃ printed, printExtDataElts fuel 0x1000 other = .ok visits printed) ∧
      (∃ last, visits.getLast? = some last ∧ word32 unknownElement last 0 = 0) ∧
      ∀ visit ∈ visits, Access.Among 0x1000 14 ⟨visit, 8⟩ := by
  have returns : (verifyExtDataElts 0x1000 14 (.start unknownElement)).value? = some true := by
    decide
  obtain ⟨reached, run⟩ := Outcome.eq_ok_of_value? returns
  rw [run]
  exact printExtDataElts_follows run

end Printing

end Sable
