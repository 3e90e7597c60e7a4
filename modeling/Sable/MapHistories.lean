import Mathlib.Data.List.Perm.Basic
import Sable.E820Regions

/-!
# Histories of the memory map

Between the launch and the start of the kernel the map is updated again and again, by
`protect_region` and by `e820_reserve_ram`.  What a history does is said by the regions of its
updates alone: no update undoes another one, and their order does not matter.
-/

namespace Sable

open RegionTable E820Table

/-- The updates of the map, all of which make a range reserved. -/
inductive MapUpdate where
  | protect (addr size : UInt64)
  | reserve (base length : UInt64)
  deriving DecidableEq

namespace MapUpdate

def apply (table : E820Table) : MapUpdate → Bool × E820Table
  | protect addr size => protectRegion table addr size e820Reserved
  | reserve base length => e820ReserveRam table base length

/-- The addresses of the range. -/
def Covers : MapUpdate → Nat → Prop
  | protect addr size, a => addr.toNat ≤ a ∧ a < addr.toNat + size.toNat
  | reserve base length, a => base.toNat ≤ a ∧ a < base.toNat + length.toNat

/-- The types that are overwritten. -/
def Takes : MapUpdate → Option UInt32 → Prop
  | protect _ _, _ => True
  | reserve _ _, type => type = some e820Ram

instance decidableCovers (update : MapUpdate) (a : Nat) : Decidable (update.Covers a) := by
  cases update <;> exact inferInstanceAs (Decidable (_ ∧ _))

instance decidableTakes (update : MapUpdate) (type : Option UInt32) :
    Decidable (update.Takes type) :=
  match update with
  | protect _ _ => inferInstanceAs (Decidable True)
  | reserve _ _ => inferInstanceAs (Decidable (type = some e820Ram))

/-- What an update is for, on maps as functions from addresses to types. -/
def effect (types : Nat → Option UInt32) (update : MapUpdate) : Nat → Option UInt32 :=
  fun a => if update.Covers a ∧ update.Takes (types a) then some e820Reserved else types a

/-- The update does not reach the start of the map, which begins with `origin`. -/
def Spares (origin : Region Nat UInt32) : MapUpdate → Prop
  | protect addr size => size ≠ 0 → origin.base < addr.toNat
  | reserve base length => base.toNat + length.toNat < 2 ^ 64 ∧
      ¬ (origin.kind = e820Ram ∧ base.toNat ≤ origin.base ∧
        origin.base < base.toNat + length.toNat ∧ base.toNat + length.toNat < origin.limit)

end MapUpdate

/-- The updates one after another; there is no table if one of them fails. -/
def runUpdates (table : E820Table) : List MapUpdate → Option E820Table
  | [] => some table
  | update :: rest =>
      match update.apply table with
      | (true, reached) => runUpdates reached rest
      | (false, _) => none

variable {table reached : E820Table} {origin : Region Nat UInt32} {update : MapUpdate}
  {updates : List MapUpdate}

namespace MapUpdate

theorem start_below {addr : UInt64} (start : table.Starts origin)
    (behind : origin.base < addr.toNat) : ∀ low ∈ table.firstBase, low < addr.toNat := by
  obtain ⟨first, head, base, -, -⟩ := start
  intro low member
  rw [E820Table.firstBase, Option.mem_def.mp head] at member
  cases member
  rw [base]
  exact behind

/-- A range that does not cut the front off the start does not cut it off what is left of it. -/
theorem start_uncut {base length : UInt64} (start : table.Starts origin)
    (spares : (reserve base length).Spares origin) :
    ∀ first ∈ table.entries.head?, ¬ CutsFront base (base + length) first := by
  obtain ⟨fits, uncut⟩ := spares
  obtain ⟨region, head, place, limit, kind⟩ := start
  rintro first member ⟨ram, lower, inside, upper⟩
  have same : region = first.region := by
    rw [E820Table.regions, List.head?_map, Option.mem_def.mp member] at head
    exact (Option.some.inj head).symm
  subst same
  rw [UInt64.toNat_add, Nat.mod_eq_of_lt fits] at inside upper
  exact uncut ⟨kind ram, by omega, by omega, by omega⟩

/-- One update does what it is for, and keeps the start of the map. -/
theorem apply_effect (valid : table.Valid) (start : table.Starts origin)
    (spares : update.Spares origin) (run : update.apply table = (true, reached)) :
    Tightens table reached ∧ reached.typeAt = update.effect table.typeAt := by
  cases update with
  | protect addr size =>
      obtain ⟨-, types⟩ := protectRegion_spec valid
        (fun filled => start_below start (spares filled)) run
      refine ⟨(protectRegion_tightens valid start spares run).1, funext fun a => ?_⟩
      rw [types, effect]
      simp only [Covers, Takes, and_true]
  | reserve base length =>
      have safe := start_uncut start spares
      obtain ⟨-, types⟩ := e820ReserveRam_spec valid spares.1 safe run
      refine ⟨e820ReserveRam_tightens valid spares.1 safe run, funext fun a => ?_⟩
      rw [types, effect]
      cases table.typeAt a with
      | none => exact (if_neg fun both => nomatch both.2).symm
      | some type =>
          have same : (reserve base length).Covers a ∧ (reserve base length).Takes (some type) ↔
              type = e820Ram ∧ base.toNat ≤ a ∧ a < base.toNat + length.toNat := by
            rw [and_comm]
            exact and_congr_left fun _ => Option.some_inj
          rw [Option.map_some]
          by_cases changed : type = e820Ram ∧ base.toNat ≤ a ∧ a < base.toNat + length.toNat
          · rw [if_pos changed, if_pos (same.mpr changed)]
          · rw [if_neg changed, if_neg (mt same.mp changed)]

/-- An address that an update has taken stays reserved. -/
theorem effect_of_taken {types : Nat → Option UInt32} {a : Nat}
    (taken : update.Covers a ∧ update.Takes (types a)) (later : MapUpdate) :
    later.effect (update.effect types) a = some e820Reserved := by
  have now : update.effect types a = some e820Reserved := if_pos taken
  rw [effect, now, ite_self]

theorem effect_of_not_taken {types : Nat → Option UInt32} {a : Nat}
    (left : ¬ (update.Covers a ∧ update.Takes (types a))) (later : MapUpdate) :
    later.effect (update.effect types) a = later.effect types a := by
  have still : update.effect types a = types a := if_neg left
  rw [effect, still]
  rfl

/-- The order of two updates does not matter. -/
theorem effect_comm (types : Nat → Option UInt32) (first second : MapUpdate) :
    second.effect (first.effect types) = first.effect (second.effect types) := by
  funext a
  by_cases one : first.Covers a ∧ first.Takes (types a)
  · rw [effect_of_taken one]
    by_cases two : second.Covers a ∧ second.Takes (types a)
    · rw [effect_of_taken two]
    · rw [effect_of_not_taken two]
      exact (if_pos one).symm
  · rw [effect_of_not_taken one]
    by_cases two : second.Covers a ∧ second.Takes (types a)
    · rw [effect_of_taken two]
      exact if_pos two
    · rw [effect_of_not_taken two]
      exact (if_neg two).trans (if_neg one).symm

end MapUpdate

/-- A history does one update after another. -/
theorem runUpdates_effects (valid : table.Valid) (start : table.Starts origin)
    (spares : ∀ update ∈ updates, update.Spares origin)
    (run : runUpdates table updates = some reached) :
    Tightens table reached ∧ reached.typeAt = updates.foldl MapUpdate.effect table.typeAt := by
  induction updates generalizing table with
  | nil =>
      cases run
      exact ⟨.refl valid, rfl⟩
  | cons update rest ih =>
      obtain ⟨first, others⟩ := List.forall_mem_cons.mp spares
      rw [runUpdates] at run
      cases once : update.apply table with
      | mk done between =>
          rw [once] at run
          cases done with
          | false => cases run
          | true =>
              obtain ⟨tightens, types⟩ := MapUpdate.apply_effect valid start first once
              obtain ⟨later, result⟩ := ih tightens.valid (tightens.starts origin start) others run
              rw [List.foldl_cons, ← types]
              exact ⟨tightens.trans later, result⟩

/-- The effects of a history, all at once. -/
theorem foldl_effect (types : Nat → Option UInt32) (a : Nat) :
    updates.foldl MapUpdate.effect types a =
      if ∃ update ∈ updates, update.Covers a ∧ update.Takes (types a) then some e820Reserved
      else types a := by
  induction updates generalizing types with
  | nil => simp
  | cons update rest ih =>
      rw [List.foldl_cons, ih]
      by_cases taken : update.Covers a ∧ update.Takes (types a)
      · have now : update.effect types a = some e820Reserved := if_pos taken
        rw [now, ite_self, if_pos ⟨update, List.mem_cons_self, taken⟩]
      · have still : update.effect types a = types a := if_neg taken
        simp only [still, List.mem_cons, exists_eq_or_imp, taken, false_or]

/-- In a history whose updates all succeed, an address is reserved if some update covers it and
takes its first type, and has its first type otherwise. -/
theorem runUpdates_types (valid : table.Valid) (head : origin ∈ table.regions.head?)
    (spares : ∀ update ∈ updates, update.Spares origin)
    (run : runUpdates table updates = some reached) :
    reached.Valid ∧ ∀ a, reached.typeAt a =
      if ∃ update ∈ updates, update.Covers a ∧ update.Takes (table.typeAt a) then
        some e820Reserved
      else table.typeAt a := by
  have start : table.Starts origin := ⟨origin, head, rfl, le_rfl, id⟩
  obtain ⟨tightens, types⟩ := runUpdates_effects valid start spares run
  refine ⟨tightens.valid, fun a => ?_⟩
  rw [types, foldl_effect]

/-- Two histories with the same updates in different orders lead to the same map. -/
theorem runUpdates_perm {others : List MapUpdate} {other : E820Table} (valid : table.Valid)
    (head : origin ∈ table.regions.head?) (spares : ∀ update ∈ updates, update.Spares origin)
    (perm : updates.Perm others) (run : runUpdates table updates = some reached)
    (again : runUpdates table others = some other) : other.typeAt = reached.typeAt := by
  have start : table.Starts origin := ⟨origin, head, rfl, le_rfl, id⟩
  have sparesOther : ∀ update ∈ others, update.Spares origin :=
    fun update member => spares update (perm.mem_iff.mpr member)
  rw [(runUpdates_effects valid start spares run).2,
    (runUpdates_effects valid start sparesOther again).2]
  exact (perm.foldl_eq' (fun first _ second _ types =>
    MapUpdate.effect_comm types first second) _).symm

/-- RAM, a hole and RAM. -/
def historyTable : E820Table :=
  .ofEntries [⟨20, 0, 0x9000, e820Ram⟩, ⟨20, 0x100000, 0x100000, e820Ram⟩]

def historyUpdates : List MapUpdate :=
  [.protect 0x8000 0x2000, .reserve 0x180000 0x200000]

theorem historyTable_valid : historyTable.Valid :=
  ⟨⟨by decide, by decide⟩, by decide⟩

theorem historyUpdates_spare :
    ∀ update ∈ historyUpdates, update.Spares ⟨0, 0x9000, e820Ram⟩ := by
  rintro update (_ | ⟨_, _ | ⟨_, member⟩⟩)
  · exact fun _ => by decide
  · exact ⟨by decide, by decide⟩
  · cases member

theorem runUpdates_types_history :
    ∃ reached, runUpdates historyTable historyUpdates = some reached ∧
      reached.typeAt 0x9000 = some e820Reserved ∧ reached.typeAt 0x1FFFFF = some e820Reserved ∧
      reached.typeAt 0x200000 = none := by
  have returns : (runUpdates historyTable historyUpdates).isSome := by
    decide
  obtain ⟨reached, run⟩ := Option.isSome_iff_exists.mp returns
  obtain ⟨-, types⟩ := runUpdates_types historyTable_valid rfl historyUpdates_spare run
  refine ⟨reached, run, ?_, ?_, ?_⟩ <;> rw [types] <;> decide

theorem runUpdates_perm_history :
    ∃ reached other, runUpdates historyTable historyUpdates = some reached ∧
      runUpdates historyTable historyUpdates.reverse = some other ∧
      other.typeAt = reached.typeAt := by
  have returns : (runUpdates historyTable historyUpdates).isSome := by
    decide
  have returnsOther : (runUpdates historyTable historyUpdates.reverse).isSome := by
    decide
  obtain ⟨reached, run⟩ := Option.isSome_iff_exists.mp returns
  obtain ⟨other, again⟩ := Option.isSome_iff_exists.mp returnsOther
  exact ⟨reached, other, run, again, runUpdates_perm historyTable_valid rfl
    historyUpdates_spare (List.reverse_perm _).symm run again⟩

end Sable
