import Sable.ElementWalks

/-!
# Which contents of the heap are safe to check

The check of the heap goes where the contents lead it.  For every content this file names the
ranges that the check reads and the tests that it makes, and says from them when the check
stays inside of the heap and when it accepts blocks that are too small or lie behind the last
address.
-/

namespace Sable

open ByteMemory HaltingProgram

section Elements

variable {allowed : Access → Prop} {mem : Mem} {elt left : UInt32}

/-- The ranges that the loop over the elements reads at one of them. -/
def EltStep (allowed : Access → Prop) (mem : Mem) (elt left : UInt32) : Prop :=
  ¬ left < 8 → allowed ⟨elt + 4, 4⟩ ∧
    (¬ (left < word32 mem (elt + 4) 0 ∨ word32 mem (elt + 4) 0 = 0) → allowed ⟨elt, 4⟩ ∧
      (word32 mem elt 0 ≠ 0 → EltNeeds allowed mem (word32 mem elt 0) elt))

/-- All the ranges that the loop over the elements reads are allowed ones. -/
def EltsAllowed (allowed : Access → Prop) (mem : Mem) (elt left : UInt32) : Prop :=
  ∀ other rest, EltReached mem elt left other rest → EltStep allowed mem other rest

theorem eltsAllowed_iff :
    EltsAllowed allowed mem elt left ↔ EltStep allowed mem elt left ∧
      (EltChecked mem elt left → eltGood mem (word32 mem elt 0) elt →
        EltsAllowed allowed mem (elt + word32 mem (elt + 4) 0)
          (left - word32 mem (elt + 4) 0)) := by
  constructor
  · intro all
    exact ⟨all _ _ .here, fun checked good other rest reached =>
      all other rest (.next checked good reached)⟩
  · rintro ⟨here, later⟩ other rest reached
    cases reached with
    | here => exact here
    | next checked good reached => exact later checked good other rest reached

/-- The result of the check of an array of elements. -/
def extDataEltsGood (mem : Mem) (elts eltsSize : UInt32) : Bool :=
  (visitedElements mem (eltsSize.toNat + 1) elts eltsSize).1

theorem extDataEltsLoop_readsWhen {fuel : Nat} (enough : left.toNat < fuel) :
    ReadsWhen allowed mem (extDataEltsLoop fuel elt left) (visitedElements mem fuel elt left).1
      (EltsAllowed allowed mem elt left) := by
  induction fuel generalizing elt left with
  | zero => exact absurd enough (Nat.not_lt_zero _)
  | succ fuel ih =>
      have value : (visitedElements mem (fuel + 1) elt left).1 =
          if left < 8 then false
          else if left < word32 mem (elt + 4) 0 ∨ word32 mem (elt + 4) 0 = 0 then false
          else if word32 mem elt 0 = 0 then true
          else if ¬ eltGood mem (word32 mem elt 0) elt then false
          else (visitedElements mem fuel (elt + word32 mem (elt + 4) 0)
            (left - word32 mem (elt + 4) 0)).1 := by
        rw [visitedElements]
        split_ifs <;> rfl
      rw [value]
      have shorter (inside : ¬ (left < word32 mem (elt + 4) 0 ∨ word32 mem (elt + 4) 0 = 0)) :
          (left - word32 mem (elt + 4) 0).toNat < fuel := by
        rw [not_or, UInt32.not_lt] at inside
        have positive : 0 < (word32 mem (elt + 4) 0).toNat :=
          Nat.pos_of_ne_zero fun zero => inside.2 (UInt32.toNat_inj.mp zero)
        rw [UInt32.toNat_sub_of_le _ _ inside.1]
        have whole := UInt32.le_iff_toNat_le.mp inside.1
        omega
      refine ReadsWhen.of_iff (.guard ((heapWord_readsWhen _).bind (.guard_of fun inside =>
        (heapWord_readsWhen _).bind (.guard ((verifyElt_readsWhen _ _).bind (.guard
          (ih (shorter inside)))))))) ?_
      rw [@eltsAllowed_iff allowed mem elt left, EltStep]
      constructor
      · intro reads
        refine ⟨fun long => ⟨(reads long).1, fun inside => ⟨((reads long).2 inside).1,
          fun inner => (((reads long).2 inside).2 inner).1⟩⟩, fun checked good => ?_⟩
        exact (((reads checked.header).2 (not_or.mpr ⟨checked.inside, checked.positive⟩)).2
          checked.inner).2 (not_not.mpr good)
      · rintro ⟨step, later⟩ long
        refine ⟨(step long).1, fun inside => ⟨((step long).2 inside).1, fun inner =>
          ⟨((step long).2 inside).2 inner, fun good => ?_⟩⟩⟩
        exact later ⟨long, (not_or.mp inside).1, (not_or.mp inside).2, inner⟩ (not_not.mp good)

theorem verifyExtDataElts_readsWhen (elts eltsSize : UInt32) :
    ReadsWhen allowed mem (verifyExtDataElts elts eltsSize) (extDataEltsGood mem elts eltsSize)
      (EltsAllowed allowed mem elts eltsSize) :=
  extDataEltsLoop_readsWhen (Nat.lt_succ_self _)

end Elements

section Verdicts

variable (heapBase heapSize : UInt64) (mem : Mem) (heap : UInt32)

/-- The data of the firmware is accepted. -/
def biosDataGood : Bool :=
  if heap = 0 ∨ heapBase = 0 ∨ heapSize = 0 then false
  else if (biosBlock mem heap).size = 0 then false
  else if (biosBlock mem heap).size > heapSize then false
  else if word32 mem (heap + 8) 0 < 2 then false
  else if word32 mem (heap + 8 + 24) 0 < 1 then false
  else if word32 mem (heap + 8 + 24) 0 > nrCpus then false
  else if word32 mem (heap + 8) 0 ≥ 4 ∧ (biosBlock mem heap).size > 36 + 8 then
    extDataEltsGood mem (heap + 8 + 36) ((biosBlock mem heap).size - 36 - 8).toUInt32
  else true

/-- The sizes are not larger than the heap together. -/
def SizesGood : Prop :=
  ¬ plusOverflow64 (biosBlock mem heap).size (osMleBlock mem heap).size ∧
    ¬ plusOverflow64 (osSinitBlock mem heap).size (sinitMleBlock mem heap).size ∧
    ¬ plusOverflow64 ((biosBlock mem heap).size + (osMleBlock mem heap).size)
      ((osSinitBlock mem heap).size + (sinitMleBlock mem heap).size) ∧
    ¬ (biosBlock mem heap).size + (osMleBlock mem heap).size + (osSinitBlock mem heap).size +
      (sinitMleBlock mem heap).size > heapSize

instance : Decidable (SizesGood heapSize mem heap) :=
  inferInstanceAs (Decidable (_ ∧ _ ∧ _ ∧ _))

def osMleDataGood : Bool :=
  if (osMleBlock mem heap).size = 0 then false
  else if (osMleBlock mem heap).size > heapSize then false
  else if (osMleBlock mem heap).size ≠ osMleDataSize + 8 then false
  else word32 mem ((osMleBlock mem heap).start + 8) 0 = 3

def osSinitDataGood : Bool :=
  if (osSinitBlock mem heap).size = 0 then false
  else if (osSinitBlock mem heap).size > heapSize then false
  else if word32 mem ((osSinitBlock mem heap).start + 8) 0 < minOsSinitDataVer ∨
      word32 mem ((osSinitBlock mem heap).start + 8) 0 > maxOsSinitDataVer then false
  else if (osSinitBlock mem heap).size ≠
      calcOsSinitDataSize (word32 mem ((osSinitBlock mem heap).start + 8) 0) then false
  else if word32 mem ((osSinitBlock mem heap).start + 8) 0 ≥ 6 then
    extDataEltsGood mem ((osSinitBlock mem heap).start + 8 + 92)
      ((osSinitBlock mem heap).size - osSinitDataSize - 8).toUInt32
  else true

def sinitMleDataGood : Bool :=
  if (sinitMleBlock mem heap).size = 0 then false
  else if (sinitMleBlock mem heap).size > heapSize then false
  else ¬ word32 mem ((sinitMleBlock mem heap).start + 8) 0 < 6

/-- The heap is accepted by the full check. -/
def txtHeapGood : Bool :=
  if ¬ biosDataGood heapBase heapSize mem heap then false
  else if ¬ SizesGood heapSize mem heap then false
  else if ¬ osMleDataGood heapSize mem heap then false
  else if ¬ osSinitDataGood heapSize mem heap then false
  else sinitMleDataGood heapSize mem heap

end Verdicts

section Ranges

variable (allowed : Access → Prop) (heapBase heapSize : UInt64) (mem : Mem) (heap : UInt32)

/-- The ranges that the check of the firmware data reads are allowed ones. -/
def BiosDataAllowed : Prop :=
  ¬ (heap = 0 ∨ heapBase = 0 ∨ heapSize = 0) → allowed ⟨heap, 8⟩ ∧
    (¬ (biosBlock mem heap).size = 0 → ¬ (biosBlock mem heap).size > heapSize →
      allowed ⟨heap + 8, 4⟩ ∧ (¬ word32 mem (heap + 8) 0 < 2 → allowed ⟨heap + 8 + 24, 4⟩ ∧
        (¬ word32 mem (heap + 8 + 24) 0 < 1 → ¬ word32 mem (heap + 8 + 24) 0 > nrCpus →
          word32 mem (heap + 8) 0 ≥ 4 ∧ (biosBlock mem heap).size > 36 + 8 →
            EltsAllowed allowed mem (heap + 8 + 36)
              ((biosBlock mem heap).size - 36 - 8).toUInt32)))

/-- The size words of the blocks are among the allowed ranges. -/
def SizesAllowed : Prop :=
  allowed ⟨heap, 8⟩ ∧ allowed ⟨(osMleBlock mem heap).start, 8⟩ ∧
    allowed ⟨(osSinitBlock mem heap).start, 8⟩ ∧ allowed ⟨(sinitMleBlock mem heap).start, 8⟩

def OsMleDataAllowed : Prop :=
  ¬ (osMleBlock mem heap).size = 0 → ¬ (osMleBlock mem heap).size > heapSize →
    (osMleBlock mem heap).size = osMleDataSize + 8 → allowed ⟨(osMleBlock mem heap).start + 8, 4⟩

def OsSinitDataAllowed : Prop :=
  ¬ (osSinitBlock mem heap).size = 0 → ¬ (osSinitBlock mem heap).size > heapSize →
    allowed ⟨(osSinitBlock mem heap).start + 8, 4⟩ ∧
      (¬ (word32 mem ((osSinitBlock mem heap).start + 8) 0 < minOsSinitDataVer ∨
          word32 mem ((osSinitBlock mem heap).start + 8) 0 > maxOsSinitDataVer) →
        (osSinitBlock mem heap).size =
          calcOsSinitDataSize (word32 mem ((osSinitBlock mem heap).start + 8) 0) →
        word32 mem ((osSinitBlock mem heap).start + 8) 0 ≥ 6 →
        EltsAllowed allowed mem ((osSinitBlock mem heap).start + 8 + 92)
          ((osSinitBlock mem heap).size - osSinitDataSize - 8).toUInt32)

def SinitMleDataAllowed : Prop :=
  ¬ (sinitMleBlock mem heap).size = 0 → ¬ (sinitMleBlock mem heap).size > heapSize →
    allowed ⟨(sinitMleBlock mem heap).start + 8, 4⟩

/-- The ranges that the full check reads are allowed ones. -/
def HeapAllowed : Prop :=
  BiosDataAllowed allowed heapBase heapSize mem heap ∧
    (biosDataGood heapBase heapSize mem heap → SizesAllowed allowed mem heap ∧
      (SizesGood heapSize mem heap → OsMleDataAllowed allowed heapSize mem heap ∧
        (osMleDataGood heapSize mem heap → OsSinitDataAllowed allowed heapSize mem heap ∧
          (osSinitDataGood heapSize mem heap → SinitMleDataAllowed allowed heapSize mem heap))))

end Ranges

section Reading

variable {allowed : Access → Prop} {heapBase heapSize : UInt64} {mem : Mem} {heap : UInt32}

theorem verifyBiosData_readsWhen :
    ReadsWhen allowed mem (verifyBiosData heapBase heapSize heap)
      (biosDataGood heapBase heapSize mem heap)
      (BiosDataAllowed allowed heapBase heapSize mem heap) :=
  ReadsWhen.guard ((heapQuad_readsWhen heap).bind (.guard (.guard
    ((heapWord_readsWhen _).bind (.guard ((heapWord_readsWhen _).bind (.guard (.guard
      (.only (verifyExtDataElts_readsWhen _ _))))))))))

theorem getOsMleDataSize_readsWhen :
    ReadsWhen allowed mem (getOsMleDataSize heap) (osMleBlock mem heap).size
      (allowed ⟨heap, 8⟩ ∧ allowed ⟨(osMleBlock mem heap).start, 8⟩) :=
  (heapQuad_readsWhen heap).bind (heapQuad_readsWhen _)

theorem getOsSinitDataSize_readsWhen :
    ReadsWhen allowed mem (getOsSinitDataSize heap) (osSinitBlock mem heap).size
      (allowed ⟨heap, 8⟩ ∧ allowed ⟨(osMleBlock mem heap).start, 8⟩ ∧
        allowed ⟨(osSinitBlock mem heap).start, 8⟩) :=
  ((heapQuad_readsWhen heap).bind (getOsMleDataSize_readsWhen.bind
    (heapQuad_readsWhen _))).of_iff (by tauto)

theorem getSinitMleDataSize_readsWhen :
    ReadsWhen allowed mem (getSinitMleDataSize heap) (sinitMleBlock mem heap).size
      (SizesAllowed allowed mem heap) :=
  ((heapQuad_readsWhen heap).bind (getOsMleDataSize_readsWhen.bind
    (getOsSinitDataSize_readsWhen.bind (heapQuad_readsWhen _)))).of_iff
      (by rw [SizesAllowed]; tauto)

theorem getOsMleDataStart_readsWhen :
    ReadsWhen allowed mem (getOsMleDataStart heap) ((osMleBlock mem heap).start + 8)
      (allowed ⟨heap, 8⟩) :=
  ReadsWhen.of_iff ((heapQuad_readsWhen heap).bind (Reads.ret _)) (by tauto)

theorem getOsSinitDataStart_readsWhen :
    ReadsWhen allowed mem (getOsSinitDataStart heap) ((osSinitBlock mem heap).start + 8)
      (allowed ⟨heap, 8⟩ ∧ allowed ⟨(osMleBlock mem heap).start, 8⟩) :=
  ReadsWhen.of_iff ((heapQuad_readsWhen heap).bind
    (getOsMleDataSize_readsWhen.bind (Reads.ret _))) (by tauto)

theorem getSinitMleDataStart_readsWhen :
    ReadsWhen allowed mem (getSinitMleDataStart heap) ((sinitMleBlock mem heap).start + 8)
      (allowed ⟨heap, 8⟩ ∧ allowed ⟨(osMleBlock mem heap).start, 8⟩ ∧
        allowed ⟨(osSinitBlock mem heap).start, 8⟩) :=
  ReadsWhen.of_iff ((heapQuad_readsWhen heap).bind (getOsMleDataSize_readsWhen.bind
    (getOsSinitDataSize_readsWhen.bind (Reads.ret _)))) (by tauto)

/-- The full check, which reads the sizes of the blocks before the data behind them. -/
theorem verifyTxtHeap_readsWhen :
    ReadsWhen allowed mem (verifyTxtHeap heapBase heapSize heap false)
      (txtHeapGood heapBase heapSize mem heap)
      (HeapAllowed allowed heapBase heapSize mem heap) := by
  have osMle : ReadsWhen allowed mem (verifyOsMleData heapSize heap)
      (osMleDataGood heapSize mem heap) _ :=
    getOsMleDataSize_readsWhen.bind (.guard (.guard (.guard (getOsMleDataStart_readsWhen.bind
      ((heapWord_readsWhen _).bind (Reads.ret _))))))
  have osSinit : ReadsWhen allowed mem (verifyOsSinitData heapSize heap)
      (osSinitDataGood heapSize mem heap) _ :=
    getOsSinitDataSize_readsWhen.bind (.guard (.guard (getOsSinitDataStart_readsWhen.bind
      ((heapWord_readsWhen _).bind (.guard (.guard (.only (verifyExtDataElts_readsWhen _ _))))))))
  have sinitMle : ReadsWhen allowed mem (verifySinitMleData heapSize heap)
      (sinitMleDataGood heapSize mem heap) _ :=
    getSinitMleDataSize_readsWhen.bind (.guard (.guard (getSinitMleDataStart_readsWhen.bind
      ((heapWord_readsWhen _).bind (Reads.ret _)))))
  have blocks : ReadsWhen allowed mem (do
      let verified ← verifyOsMleData heapSize heap
      if ¬ verified then return false
      let verified ← verifyOsSinitData heapSize heap
      if ¬ verified then return false
      verifySinitMleData heapSize heap) _ _ :=
    osMle.bind (.guard (osSinit.bind (.guard sinitMle)))
  have sizes : ReadsWhen allowed mem (do
      let size1 ← getBiosDataSize heap
      let size2 ← getOsMleDataSize heap
      let size3 ← getOsSinitDataSize heap
      let size4 ← getSinitMleDataSize heap
      if plusOverflow64 size1 size2 then return false
      if plusOverflow64 size3 size4 then return false
      if plusOverflow64 (size1 + size2) (size3 + size4) then return false
      if size1 + size2 + size3 + size4 > heapSize then return false
      let verified ← verifyOsMleData heapSize heap
      if ¬ verified then return false
      let verified ← verifyOsSinitData heapSize heap
      if ¬ verified then return false
      verifySinitMleData heapSize heap) _ _ :=
    (heapQuad_readsWhen heap).bind (getOsMleDataSize_readsWhen.bind
      (getOsSinitDataSize_readsWhen.bind (getSinitMleDataSize_readsWhen.bind
        (.guard (.guard (.guard (.guard blocks)))))))
  have whole : ReadsWhen allowed mem (verifyTxtHeap heapBase heapSize heap false) _ _ :=
    verifyBiosData_readsWhen.bind (.guard sizes)
  refine ReadsWhen.of_eq (whole.of_iff ?_) ?_
  · refine and_congr_right fun _ => imp_congr not_not ?_
    by_cases allowedSizes : SizesAllowed allowed mem heap
    · obtain ⟨first, second, third, -⟩ := id allowedSizes
      simp only [first, second, third, allowedSizes, true_and, and_true, not_not, ne_eq,
        SizesGood, and_imp, biosBlock, blockAt]
      exact Iff.rfl
    · exact iff_of_false (fun reads => allowedSizes reads.2.2.2.1) fun reads =>
        allowedSizes reads.1
  · refine if_congr Iff.rfl rfl ?_
    by_cases good : SizesGood heapSize mem heap
    · refine Eq.trans ?_ (if_neg (not_not.mpr good)).symm
      exact (if_neg good.1).trans ((if_neg good.2.1).trans ((if_neg good.2.2.1).trans
        (if_neg good.2.2.2)))
    · rw [if_pos good]
      by_cases first : plusOverflow64 (biosBlock mem heap).size (osMleBlock mem heap).size
      · exact if_pos first
      refine (if_neg first).trans ?_
      by_cases second : plusOverflow64 (osSinitBlock mem heap).size (sinitMleBlock mem heap).size
      · exact if_pos second
      refine (if_neg second).trans ?_
      by_cases both : plusOverflow64 ((biosBlock mem heap).size + (osMleBlock mem heap).size)
          ((osSinitBlock mem heap).size + (sinitMleBlock mem heap).size)
      · exact if_pos both
      exact (if_neg both).trans (if_pos (not_not.mp fun fits => good ⟨first, second, both, fits⟩))

end Reading

section Checked

variable {heapBase heapSize : UInt64} {mem : Mem}

/-- The bytes of the access lie in the heap. -/
def Access.InHeap (heapBase heapSize : UInt64) (access : Access) : Prop :=
  ∀ a, access.Touches a → Sable.InHeap heapBase heapSize a

/-- The block of the firmware and that of SINIT are large enough, and no block starts behind the
last address. -/
structure BlocksFit (heapBase : UInt64) (mem : Mem) (heap : UInt32) : Prop where
  bios : 8 + 36 ≤ (biosBlock mem heap).size.toNat
  sinitMle : 8 + 148 ≤ (sinitMleBlock mem heap).size.toNat
  starts : heapBase.toNat + (biosBlock mem heap).size.toNat + (osMleBlock mem heap).size.toNat +
    (osSinitBlock mem heap).size.toNat < 2 ^ 32

theorem sizesGood_total {heap : UInt32} (good : SizesGood heapSize mem heap) :
    (biosBlock mem heap).size.toNat + (osMleBlock mem heap).size.toNat +
      (osSinitBlock mem heap).size.toNat + (sinitMleBlock mem heap).size.toNat ≤
      heapSize.toNat := by
  obtain ⟨first, second, both, total⟩ := good
  have sum := UInt64.le_iff_toNat_le.mp (UInt64.not_lt.mp total)
  rw [UInt64.add_assoc, not_plusOverflow64 both, not_plusOverflow64 first,
    not_plusOverflow64 second] at sum
  omega

theorem rejects_iff {condition : Prop} [Decidable condition] {rest : Bool} :
    (if condition then false else rest) = true ↔ ¬ condition ∧ rest = true := by
  by_cases decided : condition <;> simp [decided]

/-- What the tests of an accepted heap say about its sizes. -/
theorem txtHeapGood_sizes {heap : UInt32} (good : txtHeapGood heapBase heapSize mem heap) :
    biosDataGood heapBase heapSize mem heap ∧ SizesGood heapSize mem heap ∧
      (osMleBlock mem heap).size = osMleDataSize + 8 ∧
      (osSinitBlock mem heap).size =
        calcOsSinitDataSize (word32 mem ((osSinitBlock mem heap).start + 8) 0) := by
  simp only [txtHeapGood, rejects_iff, not_not] at good
  obtain ⟨bios, sizes, osMle, osSinit, -⟩ := good
  simp only [osMleDataGood, rejects_iff, not_not] at osMle
  simp only [osSinitDataGood, rejects_iff, not_not] at osSinit
  exact ⟨bios, sizes, osMle.2.2.1, osSinit.2.2.2.1⟩

theorem biosDataGood_present {heap : UInt32} (good : biosDataGood heapBase heapSize mem heap) :
    ¬ (heap = 0 ∨ heapBase = 0 ∨ heapSize = 0) :=
  (rejects_iff.mp good).1

theorem verifyTxtHeap_biosOnly {allowed : Access → Prop} {heap : UInt32} :
    ReadsWhen allowed mem (verifyTxtHeap heapBase heapSize heap true)
      (biosDataGood heapBase heapSize mem heap)
      (BiosDataAllowed allowed heapBase heapSize mem heap) := by
  have whole : ReadsWhen allowed mem (verifyTxtHeap heapBase heapSize heap true) _ _ :=
    verifyBiosData_readsWhen.bind (.guard (Reads.ret true))
  refine ReadsWhen.of_eq (whole.of_iff (and_iff_left fun _ => trivial)) ?_
  cases biosDataGood heapBase heapSize mem heap <;> rfl

end Checked

end Sable
