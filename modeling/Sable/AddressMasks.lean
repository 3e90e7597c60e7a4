import Mathlib.Algebra.Group.Nat.Defs
import Mathlib.Data.Nat.Bitwise
import Mathlib.Tactic.Common

/-!
# Address ranges given by masks

A range register matches an address if the two agree in the bits of its mask.  When
the bits of the masks are runs that end at the address limit, of two ranges with a
common address one contains the other, and a comparison of the bases under both
masks tells whether two ranges overlap.
-/

namespace AddressMask

section Bits

/-- The word with a single bit. -/
def bit (i : Nat) : UInt64 :=
  UInt64.ofNat (2 ^ i)

theorem toNat_bit {i : Nat} (small : i < 64) : (bit i).toNat = 2 ^ i :=
  UInt64.toNat_ofNat_of_lt' (Nat.pow_lt_pow_right (by decide) small)

theorem bit_inj {i j : Nat} (first : i < 64) (second : j < 64) (same : bit i = bit j) : i = j := by
  have powers := congrArg UInt64.toNat same
  rw [toNat_bit first, toNat_bit second] at powers
  exact (Nat.pow_right_inj (by decide)).mp powers

theorem bit_shiftLeft_one {i : Nat} (small : i + 1 < 64) : bit i <<< 1 = bit (i + 1) := by
  have larger : 2 ^ (i + 1) < 2 ^ 64 := Nat.pow_lt_pow_right (by decide) small
  apply UInt64.toNat_inj.mp
  rw [UInt64.toNat_shiftLeft, toNat_bit (by omega), toNat_bit small]
  change 2 ^ i <<< 1 % 2 ^ 64 = _
  rw [Nat.shiftLeft_eq, Nat.pow_one, ← Nat.pow_succ, Nat.mod_eq_of_lt larger]

/-- A single bit selects the bit of a word. -/
theorem bit_and_ne_zero {i : Nat} (small : i < 64) (word : UInt64) :
    bit i &&& word ≠ 0 ↔ word.toNat.testBit i = true := by
  have value : (bit i &&& word).toNat = 2 ^ i * (word.toNat.testBit i).toNat := by
    rw [UInt64.toNat_and, toNat_bit small, Nat.two_pow_and]
  have positive := Nat.two_pow_pos i
  rw [← UInt64.toNat_inj.ne, value]
  cases word.toNat.testBit i <;> simp

end Bits

section Masks

variable {limit first second third page base other : UInt64}

/-- The set bits of a mask below the limit are the ones from some position on. -/
def Contiguous (limit mask : UInt64) : Prop :=
  ∃ low, ∀ i, (mask &&& limit).toNat.testBit i = (decide (low ≤ i) && limit.toNat.testBit i)

/-- The page agrees with the base in the bits of the mask. -/
def Matches (limit mask base page : UInt64) : Prop :=
  page &&& mask &&& limit = base &&& mask &&& limit

instance (limit mask base page : UInt64) : Decidable (Matches limit mask base page) :=
  inferInstanceAs (Decidable (_ = _))

/-- Every bit of the second mask below the limit is one of the first. -/
def Within (limit first second : UInt64) : Prop :=
  first &&& second &&& limit = second &&& limit

theorem contiguous_within (firstRun : Contiguous limit first)
    (secondRun : Contiguous limit second) :
    Within limit first second ∨ Within limit second first := by
  obtain ⟨low, lowBits⟩ := firstRun
  obtain ⟨high, highBits⟩ := secondRun
  have both (i : Nat) : (first &&& second &&& limit).toNat.testBit i =
      ((first &&& limit).toNat.testBit i && (second &&& limit).toNat.testBit i) := by
    simp only [UInt64.toNat_and, Nat.testBit_and]
    cases limit.toNat.testBit i <;> simp
  rcases Nat.le_total low high with order | order
  · left
    apply UInt64.toNat_inj.mp
    apply Nat.eq_of_testBit_eq
    intro i
    rw [both, lowBits, highBits]
    by_cases above : high ≤ i
    · simp [above, Nat.le_trans order above]
    · simp [above]
  · right
    apply UInt64.toNat_inj.mp
    apply Nat.eq_of_testBit_eq
    intro i
    rw [UInt64.and_comm second first, both, lowBits, highBits]
    by_cases above : low ≤ i
    · simp [above, Nat.le_trans order above]
    · simp [above]

/-- A page keeps its match with a base when both are cut by a second mask. -/
theorem Matches.cut (matching : Matches limit first base page) :
    page &&& (first &&& second &&& limit) = base &&& first &&& second &&& limit := by
  calc
    page &&& (first &&& second &&& limit) = (page &&& first &&& limit) &&& second := by
      ac_rfl
    _ = (base &&& first &&& limit) &&& second := by rw [matching]
    _ = base &&& first &&& second &&& limit := by ac_rfl

/-- If one range contains a page of the other and its mask is coarser, then the bases agree
under both masks. -/
theorem bases_agree (within : Within limit first second) (one : Matches limit first base page)
    (two : Matches limit second other page) :
    base &&& first &&& second &&& limit = other &&& second &&& limit := by
  rw [← one.cut, within, ← UInt64.and_assoc]
  exact two

/-- A range whose base agrees with that of a second one under both masks, and whose mask is
coarser, contains all pages of it. -/
theorem Matches.contained (within : Within limit first third)
    (agree : base &&& first &&& third &&& limit = other &&& third &&& limit)
    (matching : Matches limit first base page) : Matches limit third other page := by
  calc
    page &&& third &&& limit = page &&& (third &&& limit) := UInt64.and_assoc _ _ _
    _ = page &&& (first &&& third &&& limit) := by rw [within]
    _ = base &&& first &&& third &&& limit := matching.cut
    _ = other &&& third &&& limit := agree

/-- The test for a coarser mask with a complement. -/
theorem within_of_and_not (coarser : third &&& ~~~first &&& limit = 0) :
    Within limit first third := by
  apply UInt64.toBitVec_inj.mp
  apply BitVec.eq_of_getLsbD_eq
  intro i inside
  have none := congrArg (fun word : UInt64 => word.toBitVec.getLsbD i) coarser
  simp only [UInt64.toBitVec_and, UInt64.toBitVec_not, BitVec.getLsbD_and, BitVec.getLsbD_not,
    inside] at none ⊢
  cases one : first.toBitVec.getLsbD i
  · simpa [one] using none
  · simp

end Masks

end AddressMask
