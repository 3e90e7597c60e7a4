import Mathlib.Data.Fintype.Pigeonhole
import Mathlib.Logic.Function.Iterate
import Mathlib.Tactic.Common

/-!
# Walks along pointers

A walk follows a pointer from node to node until it comes to a node at which it stops.
Nothing else ends it, so a walk that returns to a node goes on forever.  A walk ends if it goes
up below a bound, and on finitely many nodes it ends exactly if it returns to none.
-/

namespace PointerWalk

variable {α : Type*} (stop : α → Prop) (follow : α → α) (start : α)

/-- The walk comes to its `n`-th node: it does not stop before. -/
def Visits (n : Nat) : Prop :=
  ∀ k < n, ¬ stop (follow^[k] start)

/-- The walk stops at some node. -/
def Ends : Prop :=
  ∃ n, stop (follow^[n] start)

/-- The node at which the walk stops, if it is among the first ones. -/
def walk [DecidablePred stop] : Nat → α → Option α
  | 0, _ => none
  | fuel + 1, a => if stop a then some a else walk fuel (follow a)

variable {stop follow start}

theorem visits_zero : Visits stop follow start 0 :=
  fun _ before => absurd before (Nat.not_lt_zero _)

theorem Visits.mono {m n : Nat} (visits : Visits stop follow start n) (order : m ≤ n) :
    Visits stop follow start m :=
  fun k before => visits k (Nat.lt_of_lt_of_le before order)

/-- The walk behind the first node. -/
theorem visits_succ {n : Nat} : Visits stop follow start (n + 1) ↔
    ¬ stop start ∧ Visits stop follow (follow start) n := by
  constructor
  · intro visits
    exact ⟨visits 0 (Nat.succ_pos n), fun k before => visits (k + 1) (Nat.succ_lt_succ before)⟩
  · rintro ⟨here, later⟩ k before
    cases k with
    | zero => exact here
    | succ k => exact later k (Nat.lt_of_succ_lt_succ before)

/-- A walk that ends has a first node at which it stops. -/
theorem Ends.first (ends : Ends stop follow start) :
    ∃ n, Visits stop follow start n ∧ stop (follow^[n] start) := by
  classical
  exact ⟨Nat.find ends, fun _ before => Nat.find_min ends before, Nat.find_spec ends⟩

/-- A walk that does not end comes to every node. -/
theorem visits_of_not_ends (never : ¬ Ends stop follow start) (n : Nat) :
    Visits stop follow start n :=
  fun k _ stopped => never ⟨k, stopped⟩

/-- A walk that goes up and stays below a bound ends. -/
theorem ends_of_increase (rank : α → Nat) (bound : Nat)
    (increase : ∀ n, Visits stop follow start (n + 1) →
      rank (follow^[n] start) < rank (follow^[n + 1] start) ∧
        rank (follow^[n + 1] start) ≤ bound) :
    Ends stop follow start := by
  by_contra never
  have visits := visits_of_not_ends never
  have high (n : Nat) : n ≤ rank (follow^[n] start) := by
    induction n with
    | zero => exact Nat.zero_le _
    | succ n ih => exact Nat.succ_le_of_lt (Nat.lt_of_le_of_lt ih (increase n (visits _)).1)
  exact absurd ((high (bound + 1)).trans (increase bound (visits _)).2) (Nat.not_succ_le_self _)

/-- A walk that returns to a node does not end. -/
theorem Visits.not_ends_of_return {i j : Nat} (visits : Visits stop follow start j)
    (order : i < j) (same : follow^[j] start = follow^[i] start) :
    ¬ Ends stop follow start := by
  rintro ⟨n, stopped⟩
  -- the walk stops within the nodes that it has visited, since it only repeats them
  obtain ⟨d, rfl⟩ := Nat.exists_eq_add_of_lt order
  induction n using Nat.strong_induction_on with
  | h n ih =>
      by_cases before : n < i + d + 1
      · exact visits n before stopped
      · obtain ⟨k, rfl⟩ := Nat.exists_eq_add_of_le (Nat.le_of_not_lt before)
        refine ih (i + k) (by omega) ?_
        rw [Nat.add_comm i k, Function.iterate_add_apply, ← same, ← Function.iterate_add_apply,
          Nat.add_comm k]
        exact stopped

/-- On finitely many nodes a walk ends exactly if it returns to none. -/
theorem ends_iff_no_return [Finite α] : Ends stop follow start ↔
    ∀ i j, i < j → Visits stop follow start j → follow^[j] start ≠ follow^[i] start := by
  constructor
  · exact fun ends i j order visits same => visits.not_ends_of_return order same ends
  · intro apart
    obtain ⟨i, j, differ, same⟩ := Finite.exists_ne_map_eq_of_infinite fun n => follow^[n] start
    by_contra never
    have visits := visits_of_not_ends never
    rcases Nat.lt_or_gt_of_ne differ with before | after
    · exact apart i j before (visits j) same.symm
    · exact apart j i after (visits i) same

theorem walk_eq_some_iff [DecidablePred stop] {fuel : Nat} {last : α} :
    walk stop follow fuel start = some last ↔
      ∃ n < fuel, Visits stop follow start n ∧ stop (follow^[n] start) ∧
        follow^[n] start = last := by
  induction fuel generalizing start with
  | zero => simp [walk]
  | succ fuel ih =>
      rw [walk]
      by_cases here : stop start
      · rw [if_pos here, Option.some_inj]
        constructor
        · exact fun same => ⟨0, Nat.succ_pos _, visits_zero, here, same⟩
        · rintro ⟨n, -, visits, -, found⟩
          cases n with
          | zero => exact found
          | succ n => exact absurd here (visits_succ.mp visits).1
      · rw [if_neg here, ih]
        constructor
        · rintro ⟨n, inside, visits, stopped, found⟩
          exact ⟨n + 1, Nat.succ_lt_succ inside, visits_succ.mpr ⟨here, visits⟩, stopped, found⟩
        · rintro ⟨n, inside, visits, stopped, found⟩
          cases n with
          | zero => exact absurd stopped here
          | succ n => exact ⟨n, Nat.lt_of_succ_lt_succ inside, (visits_succ.mp visits).2, stopped,
              found⟩

/-- The walk ends exactly if some number of nodes is enough for it. -/
theorem ends_iff_walk [DecidablePred stop] :
    Ends stop follow start ↔ ∃ fuel last, walk stop follow fuel start = some last := by
  constructor
  · intro ends
    obtain ⟨n, visits, stopped⟩ := ends.first
    exact ⟨n + 1, _, walk_eq_some_iff.mpr ⟨n, Nat.lt_succ_self n, visits, stopped, rfl⟩⟩
  · rintro ⟨fuel, last, found⟩
    obtain ⟨n, -, -, stopped, -⟩ := walk_eq_some_iff.mp found
    exact ⟨n, stopped⟩

end PointerWalk
