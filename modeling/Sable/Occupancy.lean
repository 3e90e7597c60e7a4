import Mathlib.Algebra.Order.BigOperators.Group.Finset
import Mathlib.Data.Fintype.BigOperators
import Mathlib.Tactic.Common

/-!
# Counters of the members in a zone

Each member of a finite set is in some phase, and a zone is a test on phases.  One member
moves at a time, and a counter of 32 bits that is changed with each move into the zone and
out of it keeps its distance from the number of members there.
-/

namespace Occupancy

section Counting

variable {ι φ : Type*} [Fintype ι]

/-- The number of members whose phase is in the zone. -/
def occupancy (zone : φ → Bool) (phase : ι → φ) : Nat :=
  ∑ i, (zone (phase i)).toNat

variable {zone other : φ → Bool} {phase next : ι → φ}

theorem occupancy_eq_card (zone : φ → Bool) (phase : ι → φ) :
    occupancy zone phase = (Finset.univ.filter fun i => zone (phase i) = true).card := by
  rw [Finset.card_filter]
  refine Finset.sum_congr rfl fun i _ => ?_
  cases zone (phase i) <;> rfl

theorem occupancy_le_card (zone : φ → Bool) (phase : ι → φ) :
    occupancy zone phase ≤ Fintype.card ι := by
  have each : occupancy zone phase ≤ ∑ _ : ι, 1 :=
    Finset.sum_le_sum fun i _ => Bool.toNat_le _
  simpa using each

/-- A zone into which members only move does not lose any. -/
theorem occupancy_mono (stays : ∀ i, zone (phase i) = true → other (next i) = true) :
    occupancy zone phase ≤ occupancy other next := by
  refine Finset.sum_le_sum fun i _ => ?_
  cases inside : zone (phase i) with
  | false => exact Nat.zero_le _
  | true => rw [stays i inside]

/-- A zone that is made of two zones without a common phase. -/
theorem occupancy_split {first second : φ → Bool}
    (split : ∀ p, (zone p).toNat = (first p).toNat + (second p).toNat) (phase : ι → φ) :
    occupancy zone phase = occupancy first phase + occupancy second phase := by
  rw [occupancy, occupancy, occupancy, ← Finset.sum_add_distrib]
  exact Finset.sum_congr rfl fun i _ => split (phase i)

theorem occupancy_eq_zero :
    occupancy zone phase = 0 ↔ ∀ i, zone (phase i) = false := by
  rw [occupancy, Finset.sum_eq_zero_iff]
  constructor
  · intro empty i
    exact Bool.toNat_eq_zero.mp (empty i (Finset.mem_univ i))
  · intro outside i _
    rw [outside i, Bool.toNat_false]

variable [DecidableEq ι]

/-- One member moves. -/
theorem occupancy_update (zone : φ → Bool) (phase : ι → φ) (i : ι) (p : φ) :
    occupancy zone (Function.update phase i p) + (zone (phase i)).toNat =
      occupancy zone phase + (zone p).toNat := by
  have moved (q : ι → φ) : occupancy zone q =
      (zone (q i)).toNat + ∑ j ∈ Finset.univ.erase i, (zone (q j)).toNat :=
    (Finset.add_sum_erase _ _ (Finset.mem_univ i)).symm
  have rest : ∑ j ∈ Finset.univ.erase i, (zone (Function.update phase i p j)).toNat =
      ∑ j ∈ Finset.univ.erase i, (zone (phase j)).toNat := by
    refine Finset.sum_congr rfl fun j member => ?_
    rw [Function.update_of_ne (Finset.ne_of_mem_erase member)]
  rw [moved (Function.update phase i p), moved phase, rest, Function.update_self]
  omega

end Counting

section Counters

variable {ι φ : Type*} [Fintype ι] [DecidableEq ι]
  {zone : φ → Bool} {phase : ι → φ} {counter drift : UInt32} {i : ι} {p : φ}

/-- The counter differs from the number of members in the zone by `drift`. -/
def Counts (zone : φ → Bool) (phase : ι → φ) (counter drift : UInt32) : Prop :=
  counter = UInt32.ofNat (occupancy zone phase) + drift

theorem Counts.stays (counts : Counts zone phase counter drift)
    (same : zone p = zone (phase i)) :
    Counts zone (Function.update phase i p) counter drift := by
  have moves := occupancy_update zone phase i p
  rw [same, Nat.add_right_cancel_iff] at moves
  rw [Counts, moves]
  exact counts

theorem Counts.enters (counts : Counts zone phase counter drift)
    (outside : zone (phase i) = false) (inside : zone p = true) :
    Counts zone (Function.update phase i p) (counter + 1) drift := by
  have moves := occupancy_update zone phase i p
  rw [outside, inside, Bool.toNat_false, Bool.toNat_true, Nat.add_zero] at moves
  have one : UInt32.ofNat 1 = 1 := rfl
  rw [Counts, moves, UInt32.ofNat_add, one, counts]
  ac_rfl

theorem Counts.leaves (counts : Counts zone phase counter drift)
    (inside : zone (phase i) = true) (outside : zone p = false) :
    Counts zone (Function.update phase i p) (counter - 1) drift := by
  have moves := occupancy_update zone phase i p
  have one : UInt32.ofNat 1 = 1 := rfl
  rw [outside, inside, Bool.toNat_false, Bool.toNat_true] at moves
  rw [Counts, counts, ← Nat.add_zero (occupancy zone phase), ← moves, UInt32.ofNat_add, one,
    UInt32.sub_eq_iff_eq_add]
  ac_rfl

omit [DecidableEq ι] in
/-- Every counter has some distance. -/
theorem counts_drift (zone : φ → Bool) (phase : ι → φ) (counter : UInt32) :
    Counts zone phase counter (counter - UInt32.ofNat (occupancy zone phase)) := by
  rw [Counts, UInt32.add_comm, UInt32.sub_add_cancel]

/-- A counter that is changed when a member moves into the zone or out of it. -/
def Tallied (zone : φ → Bool) (old new : φ) (counter changed : UInt32) : Prop :=
  (zone new = zone old ∧ changed = counter) ∨
    (zone old = false ∧ zone new = true ∧ changed = counter + 1) ∨
      (zone old = true ∧ zone new = false ∧ changed = counter - 1)

theorem Counts.tallied {changed : UInt32} (counts : Counts zone phase counter drift)
    (tallied : Tallied zone (phase i) p counter changed) :
    Counts zone (Function.update phase i p) changed drift := by
  rcases tallied with ⟨same, rfl⟩ | ⟨outside, inside, rfl⟩ | ⟨inside, outside, rfl⟩
  · exact counts.stays same
  · exact counts.enters outside inside
  · exact counts.leaves inside outside

omit [DecidableEq ι] in
/-- A counter without drift is the number of members, if they are few. -/
theorem Counts.toNat_eq (counts : Counts zone phase counter 0)
    (few : Fintype.card ι < 2 ^ 32) : counter.toNat = occupancy zone phase := by
  have bounded := occupancy_le_card zone phase
  rw [counts, UInt32.add_zero, UInt32.toNat_ofNat_of_lt']
  simp only [UInt32.size]
  omega

theorem toNat_drift (now before first : Nat) :
    ((UInt32.ofNat now + (UInt32.ofNat before - UInt32.ofNat first)).toNat : Int) =
      (now + before - first) % 2 ^ 32 := by
  rw [UInt32.toNat_add, UInt32.toNat_sub, UInt32.toNat_ofNat', UInt32.toNat_ofNat',
    UInt32.toNat_ofNat']
  omega

end Counters

end Occupancy
