import Mathlib.Data.List.Pairwise
import Mathlib.Data.List.Perm.Basic
import Mathlib.Tactic.Common

/-!
# Selection sort with one exchange in each round

A round looks for the least entry behind the first one, keeps a copy of it together with its
place, and exchanges it with the first entry if it has moved.  The order is given by the test
that replaces the copy.
-/

namespace SelectionSort

/-- The test belongs to an order. -/
structure Tests {α : Type*} (before : α → α → Bool) (Ordered : α → α → Prop) : Prop where
  refl : ∀ x, Ordered x x
  trans : ∀ {x y z}, Ordered x y → Ordered y z → Ordered x z
  of_before : ∀ {x y}, before x y = true → Ordered x y
  of_not_before : ∀ {x y}, ¬ before x y = true → Ordered y x

section Definitions

variable {α : Type*} (before : α → α → Bool)

/-- The least entry found so far and its place, from place `j` on. -/
def least : List α → Nat → α → Nat → α × Nat
  | [], _, copy, pos => (copy, pos)
  | x :: xs, j, copy, pos =>
      if before x copy then least xs (j + 1) x j else least xs (j + 1) copy pos

def sort : Nat → List α → List α
  | 0, xs => xs
  | _ + 1, [] => []
  | count + 1, x :: xs =>
      let (copy, pos) := least before xs 1 x 0
      if pos > 0 then copy :: sort count (xs.set (pos - 1) x) else x :: sort count xs

end Definitions

variable {α β : Type*} {before : α → α → Bool} {Ordered : α → α → Prop}

/-- The places may be counted from anywhere. -/
theorem least_shift (xs : List α) (j : Nat) (copy : α) (pos d : Nat) :
    least before xs (j + d) copy (pos + d) =
      ((least before xs j copy pos).1, (least before xs j copy pos).2 + d) := by
  induction xs generalizing j copy pos with
  | nil => rfl
  | cons x xs ih =>
      rw [least, least]
      by_cases less : before x copy
      · rw [if_pos less, if_pos less, Nat.add_right_comm]
        exact ih (j + 1) x j
      · rw [if_neg less, if_neg less, Nat.add_right_comm]
        exact ih (j + 1) copy pos

theorem least_ordered (tests : Tests before Ordered) (xs : List α) (j : Nat) (copy : α)
    (pos : Nat) :
    Ordered (least before xs j copy pos).1 copy ∧
      ∀ x ∈ xs, Ordered (least before xs j copy pos).1 x := by
  induction xs generalizing j copy pos with
  | nil => exact ⟨tests.refl _, fun x member => (List.not_mem_nil member).elim⟩
  | cons x xs ih =>
      rw [least]
      by_cases less : before x copy
      · rw [if_pos less]
        obtain ⟨here, later⟩ := ih (j + 1) x j
        exact ⟨tests.trans here (tests.of_before less), List.forall_mem_cons.mpr ⟨here, later⟩⟩
      · rw [if_neg less]
        obtain ⟨here, later⟩ := ih (j + 1) copy pos
        exact ⟨here, List.forall_mem_cons.mpr
          ⟨tests.trans here (tests.of_not_before less), later⟩⟩

/-- The copy is kept, or it is replaced by a later entry. -/
theorem least_place (xs : List α) (j : Nat) (copy : α) (pos : Nat) :
    least before xs j copy pos = (copy, pos) ∨
      ∃ (k : Nat) (inside : k < xs.length),
        least before xs j copy pos = (xs[k], j + k) := by
  induction xs generalizing j copy pos with
  | nil => exact .inl rfl
  | cons x xs ih =>
      have shift (k : Nat) (inside : k < xs.length) : (xs[k], j + 1 + k) =
          ((x :: xs).get ⟨k + 1, Nat.succ_lt_succ inside⟩, j + (k + 1)) := by
        rw [List.get_cons_succ, Nat.add_assoc, Nat.add_comm 1]
        rfl
      rw [least]
      by_cases less : before x copy
      · rw [if_pos less]
        rcases ih (j + 1) x j with here | ⟨k, inside, later⟩
        · exact .inr ⟨0, Nat.succ_pos _, here⟩
        · exact .inr ⟨k + 1, Nat.succ_lt_succ inside, later.trans (shift k inside)⟩
      · rw [if_neg less]
        rcases ih (j + 1) copy pos with here | ⟨k, inside, later⟩
        · exact .inl here
        · exact .inr ⟨k + 1, Nat.succ_lt_succ inside, later.trans (shift k inside)⟩

/-- The exchange of a round. -/
theorem perm_exchange (x : α) (xs : List α) {k : Nat} (inside : k < xs.length) :
    (xs[k] :: xs.set k x).Perm (x :: xs) :=
  calc
    (xs[k] :: xs.set k x).Perm (xs[k] :: x :: xs.eraseIdx k) :=
      (List.set_perm_cons_eraseIdx inside x).cons _
    (xs[k] :: x :: xs.eraseIdx k).Perm (x :: xs[k] :: xs.eraseIdx k) := .swap _ _ _
    (x :: xs[k] :: xs.eraseIdx k).Perm (x :: xs) :=
      (List.getElem_cons_eraseIdx_perm inside).cons x

/-- A round that keeps the first entry. -/
theorem sort_kept (count : Nat) {x : α} {xs : List α} (kept : least before xs 1 x 0 = (x, 0)) :
    sort before (count + 1) (x :: xs) = x :: sort before count xs := by
  simp only [sort, kept, gt_iff_lt, Nat.lt_irrefl, if_false]

/-- A round that exchanges the first entry with a later one. -/
theorem sort_exchanged (count : Nat) {x : α} {xs : List α} {k : Nat} (inside : k < xs.length)
    (found : least before xs 1 x 0 = (xs[k], 1 + k)) :
    sort before (count + 1) (x :: xs) = xs[k] :: sort before count (xs.set k x) := by
  have place : 1 + k - 1 = k := Nat.add_sub_cancel_left 1 k
  have later : 0 < 1 + k := Nat.add_pos_left Nat.one_pos k
  simp only [sort, found, gt_iff_lt, later, if_true, place]

/-- One round: the least entry comes first, in front of the others. -/
theorem sort_round (tests : Tests before Ordered) (count : Nat) (x : α) (xs : List α) :
    ∃ first others, sort before (count + 1) (x :: xs) = first :: sort before count others ∧
      (first :: others).Perm (x :: xs) ∧ ∀ other ∈ x :: xs, Ordered first other := by
  obtain ⟨here, later⟩ := least_ordered tests xs 1 x 0
  have ordered : ∀ other ∈ x :: xs, Ordered (least before xs 1 x 0).1 other :=
    List.forall_mem_cons.mpr ⟨here, later⟩
  rcases @least_place α before xs 1 x 0 with kept | ⟨k, inside, found⟩
  · rw [kept] at ordered
    exact ⟨x, xs, sort_kept count kept, .refl _, ordered⟩
  · rw [found] at ordered
    exact ⟨xs[k], xs.set k x, sort_exchanged count inside found, perm_exchange x xs inside,
      ordered⟩

theorem sort_perm (tests : Tests before Ordered) (count : Nat) (xs : List α) :
    (sort before count xs).Perm xs := by
  induction count generalizing xs with
  | zero => exact .refl _
  | succ count ih =>
      cases xs with
      | nil => exact .refl _
      | cons x xs =>
          obtain ⟨first, others, round, perm, -⟩ := sort_round tests count x xs
          rw [round]
          exact ((ih others).cons first).trans perm

theorem sort_ordered (tests : Tests before Ordered) {count : Nat} {xs : List α}
    (enough : xs.length ≤ count) : (sort before count xs).Pairwise Ordered := by
  induction count generalizing xs with
  | zero =>
      rw [List.length_eq_zero_iff.mp (Nat.le_zero.mp enough)]
      exact .nil
  | succ count ih =>
      cases xs with
      | nil => exact .nil
      | cons x xs =>
          obtain ⟨first, others, round, perm, ordered⟩ := sort_round tests count x xs
          have length := perm.length_eq
          simp only [List.length_cons] at length enough
          rw [round]
          refine List.pairwise_cons.mpr ⟨fun other member => ?_, ih (by omega)⟩
          have origin : other ∈ others := (sort_perm tests count others).mem_iff.mp member
          exact ordered other (perm.mem_iff.mp (List.mem_cons_of_mem _ origin))

section Map

variable {key : β → α} {beforeKeys : β → β → Bool}

theorem least_map (same : ∀ x y, beforeKeys x y = before (key x) (key y)) (xs : List β)
    (j : Nat) (copy : β) (pos : Nat) :
    least before (xs.map key) j (key copy) pos =
      (key (least beforeKeys xs j copy pos).1, (least beforeKeys xs j copy pos).2) := by
  induction xs generalizing j copy pos with
  | nil => rfl
  | cons x xs ih =>
      rw [List.map_cons, least, least, ← same]
      by_cases less : beforeKeys x copy
      · rw [if_pos less, if_pos less]
        exact ih (j + 1) x j
      · rw [if_neg less, if_neg less]
        exact ih (j + 1) copy pos

/-- A sort that only looks at keys sorts the keys. -/
theorem sort_map (same : ∀ x y, beforeKeys x y = before (key x) (key y)) (count : Nat)
    (xs : List β) :
    (sort beforeKeys count xs).map key = sort before count (xs.map key) := by
  induction count generalizing xs with
  | zero => rfl
  | succ count ih =>
      cases xs with
      | nil => rfl
      | cons x xs =>
          have keys := least_map same xs 1 x 0
          rcases @least_place β beforeKeys xs 1 x 0 with kept | ⟨k, inside, found⟩
          · rw [kept] at keys
            rw [sort_kept count kept, List.map_cons, List.map_cons, ih, sort_kept count keys]
          · rw [found] at keys
            have inMap : k < (xs.map key).length := by
              rw [List.length_map]
              exact inside
            have entry : (xs.map key)[k] = key xs[k] := List.getElem_map _
            rw [sort_exchanged count inside found, List.map_cons, List.map_cons, ih,
              List.map_set, sort_exchanged count inMap (by rw [entry]; exact keys), entry]

end Map

end SelectionSort
