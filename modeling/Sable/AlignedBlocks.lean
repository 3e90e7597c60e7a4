import Mathlib.Algebra.Group.Nat.Defs
import Mathlib.Data.Nat.Bitwise
import Mathlib.Tactic.Common

/-!
# Blocks of powers of two

A range is cut into blocks whose lengths are powers of two and whose starts are
multiples of their lengths.  Such a block consists of the numbers that agree with
its start in the higher bits.
-/

namespace AlignedBlock

/-- The lengths of consecutive blocks, each a power of two that divides the start of its
block. -/
def AlignedFrom : Nat → List Nat → Prop
  | _, [] => True
  | start, size :: rest => (∃ e, size = 2 ^ e) ∧ size ∣ start ∧ AlignedFrom (start + size) rest

variable {start size n k : Nat} {first second : List Nat}

theorem AlignedFrom.append (one : AlignedFrom start first)
    (two : AlignedFrom (start + first.sum) second) : AlignedFrom start (first ++ second) := by
  induction first generalizing start with
  | nil => simpa using two
  | cons size rest ih =>
      obtain ⟨power, divides, aligned⟩ := one
      refine ⟨power, divides, ih aligned ?_⟩
      rwa [List.sum_cons, ← Nat.add_assoc] at two

/-- Blocks of one length. -/
theorem alignedFrom_replicate {e : Nat} (divides : 2 ^ e ∣ start) (count : Nat) :
    AlignedFrom start (List.replicate count (2 ^ e)) := by
  induction count generalizing start with
  | zero => exact True.intro
  | succ count ih => exact ⟨⟨e, rfl⟩, divides, ih (Nat.dvd_add divides (Nat.dvd_refl _))⟩

/-- The powers of two in a number, the largest one first. -/
def powers : Nat → Nat → List Nat
  | 0, _ => []
  | fuel + 1, n => if n = 0 then [] else 2 ^ n.log2 :: powers fuel (n - 2 ^ n.log2)

theorem powers_sum (fuel : Nat) (enough : n ≤ fuel) : (powers fuel n).sum = n := by
  induction fuel generalizing n with
  | zero =>
      obtain rfl : n = 0 := by omega
      rfl
  | succ fuel ih =>
      rw [powers]
      by_cases zero : n = 0
      · rw [if_pos zero, zero, List.sum_nil]
      · have below := Nat.log2_self_le zero
        have positive := Nat.two_pow_pos n.log2
        rw [if_neg zero, List.sum_cons, ih (by omega)]
        omega

/-- Behind a multiple of a larger power of two the powers fall into place. -/
theorem alignedFrom_powers (fuel : Nat) (small : n < 2 ^ k) (divides : 2 ^ k ∣ start) :
    AlignedFrom start (powers fuel n) := by
  induction fuel generalizing n k start with
  | zero => exact True.intro
  | succ fuel ih =>
      rw [powers]
      by_cases zero : n = 0
      · rw [if_pos zero]
        exact True.intro
      · rw [if_neg zero]
        have order : n.log2 ≤ k := by
          by_contra above
          have more : 2 ^ k ≤ 2 ^ n.log2 := Nat.pow_le_pow_right (by decide) (by omega)
          have below := Nat.log2_self_le zero
          omega
        have part : 2 ^ n.log2 ∣ start := (Nat.pow_dvd_pow 2 order).trans divides
        have half : n - 2 ^ n.log2 < 2 ^ n.log2 := by
          have above := @Nat.lt_log2_self n
          rw [Nat.pow_succ] at above
          omega
        exact ⟨⟨n.log2, rfl⟩, part, ih half (Nat.dvd_add part (Nat.dvd_refl _))⟩

/-- The mask of the bits from `e` to `width` keeps the multiples of `2 ^ e`. -/
theorem and_mask {e width : Nat} (order : e ≤ width) {page : Nat} (small : page < 2 ^ width) :
    page &&& (2 ^ width - 2 ^ e) = page / 2 ^ e * 2 ^ e := by
  have mask : 2 ^ width - 2 ^ e = (2 ^ (width - e) - 1) <<< e := by
    rw [Nat.shiftLeft_eq, Nat.sub_mul, ← Nat.pow_add, Nat.sub_add_cancel order, Nat.one_mul]
  rw [mask, ← Nat.shiftRight_eq_div_pow, ← Nat.shiftLeft_eq]
  apply Nat.eq_of_testBit_eq
  intro i
  rw [Nat.testBit_and, Nat.testBit_shiftLeft, Nat.testBit_shiftLeft, Nat.testBit_shiftRight,
    Nat.testBit_two_pow_sub_one]
  by_cases low : e ≤ i
  · rw [Nat.add_sub_cancel' low]
    by_cases high : i < width
    · have inside : i - e < width - e := by omega
      simp [low, inside]
    · have none : page.testBit i = false :=
        Nat.testBit_lt_two_pow (small.trans_le (Nat.pow_le_pow_right (by decide) (by omega)))
      simp [none]
  · simp [low]

/-- The numbers that agree with the start of an aligned block under the mask. -/
theorem and_mask_eq_iff {e width : Nat} (order : e ≤ width) {page : Nat}
    (small : page < 2 ^ width) (inside : start < 2 ^ width) (divides : 2 ^ e ∣ start) :
    page &&& (2 ^ width - 2 ^ e) = start &&& (2 ^ width - 2 ^ e) ↔
      start ≤ page ∧ page < start + 2 ^ e := by
  have positive := Nat.two_pow_pos e
  obtain ⟨q, rfl⟩ := divides
  rw [and_mask order small, and_mask order inside, Nat.mul_div_cancel_left _ positive,
    Nat.mul_comm (2 ^ e) q, Nat.mul_left_inj positive.ne', Nat.div_eq_iff positive,
    Nat.mul_comm q (2 ^ e)]
  omega

end AlignedBlock
