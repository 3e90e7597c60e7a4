import Mathlib.Algebra.Group.Nat.Defs
import Mathlib.Data.Nat.Basic

/-!
# Positional numerals

The value of a list of digits whose first digit weighs most, and the test by which a reader of
bounded numbers notices that a digit leads over the bound before it adds the digit.
-/

namespace Numerals

/-- The value of the digits behind a number that has been read. -/
def valueFrom (base : Nat) : Nat → List Nat → Nat
  | acc, [] => acc
  | acc, digit :: digits => valueFrom base (acc * base + digit) digits

def value (base : Nat) (digits : List Nat) : Nat :=
  valueFrom base 0 digits

variable {base acc limit digit : Nat} {digits : List Nat}

@[simp]
theorem valueFrom_nil (base acc : Nat) : valueFrom base acc [] = acc :=
  rfl

@[simp]
theorem valueFrom_cons (base acc digit : Nat) (digits : List Nat) :
    valueFrom base acc (digit :: digits) = valueFrom base (acc * base + digit) digits :=
  rfl

/-- Further digits do not make a number smaller. -/
theorem le_valueFrom (positive : 0 < base) : acc ≤ valueFrom base acc digits := by
  induction digits generalizing acc with
  | nil => exact Nat.le_refl acc
  | cons digit digits ih =>
      calc
        acc ≤ acc * base := Nat.le_mul_of_pos_right acc positive
        _ ≤ acc * base + digit := Nat.le_add_right _ _
        _ ≤ valueFrom base acc (digit :: digits) := ih

/-- A digit leads over the bound if the number is larger than the quotient, or if it is the
quotient and the digit is larger than the remainder. -/
theorem limit_lt_iff (small : digit < base) :
    limit < acc * base + digit ↔
      limit / base < acc ∨ acc = limit / base ∧ limit % base < digit := by
  have positive : 0 < base := by omega
  have split := Nat.div_add_mod limit base
  have rest := Nat.mod_lt limit positive
  rw [Nat.mul_comm] at split
  rcases Nat.lt_trichotomy acc (limit / base) with less | same | more
  · have next := Nat.mul_le_mul_right base less
    rw [Nat.succ_mul] at next
    omega
  · subst same
    omega
  · have next := Nat.mul_le_mul_right base more
    rw [Nat.succ_mul] at next
    omega

/-- The digits of a number of which the last ones are given by division. -/
theorem valueFrom_div (base number count : Nat) :
    valueFrom base (number / base ^ count)
        ((List.range count).reverse.map fun k => number / base ^ k % base) = number := by
  induction count with
  | zero => simp
  | succ count ih =>
      have step : number / base ^ (count + 1) * base + number / base ^ count % base =
          number / base ^ count := by
        rw [Nat.pow_succ, ← Nat.div_div_eq_div_mul, Nat.mul_comm]
        exact Nat.div_add_mod _ _
      rw [List.range_succ, List.reverse_append, List.reverse_singleton, List.singleton_append,
        List.map_cons, valueFrom_cons, step]
      exact ih

end Numerals
