import Sable.TypedRanges

/-!
# Saved range registers

The registers are saved before they are changed for the SINIT module, and written back
after the launch or after its failure.  Only the pairs that the processor has are changed,
and these are the ones that were saved.
-/

namespace Sable

section Mapping

variable {memType : UInt32} {vcnt : Nat} {msrs reached : MtrrMsrs}

/-- Registers that agree in the capabilities and behind the pairs of the processor. -/
structure SamePairs (msrs reached : MtrrMsrs) : Prop where
  mtrrCap : reached.mtrrCap = msrs.mtrrCap
  behind : ∀ j, msrs.vcnt ≤ j → reached.varMtrrs j = msrs.varMtrrs j

theorem SamePairs.refl (msrs : MtrrMsrs) : SamePairs msrs msrs :=
  ⟨rfl, fun _ _ => rfl⟩

theorem SamePairs.vcnt_eq (same : SamePairs msrs reached) : reached.vcnt = msrs.vcnt := by
  rw [MtrrMsrs.vcnt, MtrrMsrs.vcnt, same.mtrrCap]

theorem SamePairs.trans {last : MtrrMsrs} (first : SamePairs msrs reached)
    (second : SamePairs reached last) : SamePairs msrs last := by
  refine ⟨second.mtrrCap.trans first.mtrrCap, fun j after => ?_⟩
  rw [second.behind j (by rw [first.vcnt_eq]; exact after), first.behind j after]

theorem setAllMtrrs_samePairs (enable : Bool) (msrs : MtrrMsrs) :
    SamePairs msrs (setAllMtrrs enable msrs) :=
  ⟨rfl, fun _ _ => rfl⟩

theorem cleared_samePairs (msrs : MtrrMsrs) : SamePairs msrs msrs.cleared := by
  rw [MtrrMsrs.cleared, disableLoop_apply]
  exact ⟨rfl, fun j after => if_neg (by omega)⟩

/-- The loops use the pairs of the processor in their order, and no other. -/
theorem mapBlocks_samePairs (blocks : List Nat) {mapping : Mapping}
    (inside : mapping.ndx < mapping.msrs.vcnt) :
    SamePairs mapping.msrs
      (mapBlocks memType mapping.msrs.vcnt blocks mapping).2.msrs := by
  induction blocks generalizing mapping with
  | nil => exact SamePairs.refl _
  | cons pages rest ih =>
      have step : SamePairs mapping.msrs (mapping.mapPages memType pages).msrs :=
        ⟨rfl, fun j after => Function.update_of_ne (by omega) _ _⟩
      have count : (mapping.mapPages memType pages).ndx = mapping.ndx + 1 := rfl
      rw [mapBlocks]
      by_cases last : (mapping.mapPages memType pages).ndx = mapping.msrs.vcnt
      · rw [if_pos last]
        exact step
      · rw [if_neg last]
        have next := @ih (mapping.mapPages memType pages) (by
          rw [step.vcnt_eq]
          omega)
        rw [step.vcnt_eq] at next
        exact step.trans next

theorem setMemType_samePairs {base size : UInt32} {done : Bool} (registers : 1 ≤ msrs.vcnt)
    (run : setMemType base size memType msrs = some (done, reached)) :
    SamePairs msrs reached := by
  rw [setMemType_eq, Option.map_eq_some_iff] at run
  obtain ⟨blocks, -, run⟩ := run
  have mapped := @mapBlocks_samePairs memType blocks
    ⟨base, (pageUp size >>> 12).toNat, 0, msrs.cleared⟩ (by rw [vcnt_cleared]; exact registers)
  rw [vcnt_cleared] at mapped
  have last : reached = _ := (congrArg Prod.snd run).symm
  rw [last]
  exact (cleared_samePairs msrs).trans mapped

end Mapping

section Restore

variable {msrs reached : MtrrMsrs}

theorem restoreLoop_apply (saved : List VarMtrr) (start : Nat) (msrs : MtrrMsrs) :
    restoreLoop saved start msrs =
      { msrs with varMtrrs := fun ndx =>
          if start ≤ ndx then (saved[ndx - start]?).getD (msrs.varMtrrs ndx)
          else msrs.varMtrrs ndx } := by
  induction saved generalizing start msrs with
  | nil => simp [restoreLoop]
  | cons mtrr rest ih =>
      rw [restoreLoop, ih]
      congr 1
      funext ndx
      by_cases here : ndx = start
      · subst here
        rw [if_neg (by omega), if_pos le_rfl]
        simp
      · simp only [Function.update_of_ne here]
        by_cases later : start + 1 ≤ ndx
        · obtain ⟨more, rfl⟩ := Nat.exists_eq_add_of_le later
          rw [if_pos later, if_pos (by omega), show start + 1 + more - start = more + 1 by omega,
            List.getElem?_cons_succ, Nat.add_sub_cancel_left]
        · rw [if_neg later, if_neg (by omega)]

/-- Whatever happened to the pairs of the processor, the saved state brings them back. -/
theorem restoreMtrrs_saveMtrrs (small : msrs.vcnt ≤ maxVariableMtrrs)
    (same : SamePairs msrs reached) (gSavedMtrrs : Option MtrrState) :
    restoreMtrrs (some (saveMtrrs msrs)) gSavedMtrrs reached = msrs := by
  obtain ⟨mtrrCap, mtrrDefType, varMtrrs⟩ := msrs
  have capability := same.mtrrCap
  rw [restoreMtrrs, Option.some_or]
  dsimp only [saveMtrrs]
  rw [if_neg (by omega), restoreLoop_apply]
  dsimp only [setAllMtrrs]
  rw [capability]
  congr 1
  funext ndx
  rw [if_pos (Nat.zero_le _), Nat.sub_zero, List.getElem?_map]
  by_cases inside : ndx < MtrrMsrs.vcnt ⟨mtrrCap, mtrrDefType, varMtrrs⟩
  · rw [List.getElem?_range inside]
    rfl
  · rw [List.getElem?_eq_none (by rw [List.length_range]; omega)]
    exact same.behind ndx (by omega)

/-- Saving the registers, changing them for a module and restoring them leaves every register
as it was, whether the module could be mapped or not. -/
theorem restoreMtrrs_setMtrrsForAcmod (hdr size : UInt32) (regs : CacheRegisters)
    (gSavedMtrrs : Option MtrrState) (some : 1 ≤ regs.msrs.vcnt)
    (few : regs.msrs.vcnt ≤ maxVariableMtrrs) (nonzero : hdr ≠ 0) :
    ∃ done changed, setMtrrsForAcmod hdr size regs = .some (done, changed) ∧
      restoreMtrrs (.some (saveMtrrs regs.msrs)) gSavedMtrrs changed.msrs = regs.msrs := by
  let disabled := setAllMtrrs false regs.msrs
  obtain ⟨blocks, found, -⟩ := @rangeBlocks_aligned hdr (size * 4) nonzero
  obtain ⟨⟨done, msrs⟩, run⟩ : ∃ result,
      setMemType hdr (size * 4) mtrrTypeWrback.toUInt32 disabled = .some result := by
    rw [setMemType_eq, found]
    exact ⟨_, rfl⟩
  have mapped : SamePairs regs.msrs msrs :=
    (setAllMtrrs_samePairs false regs.msrs).trans (setMemType_samePairs some run)
  rw [setMtrrsForAcmod, run]
  cases done with
  | false => exact ⟨false, _, rfl, restoreMtrrs_saveMtrrs few mapped gSavedMtrrs⟩
  | true =>
      exact ⟨true, _, rfl, restoreMtrrs_saveMtrrs few
        (mapped.trans (setAllMtrrs_samePairs true msrs)) gSavedMtrrs⟩

/-- Two pairs of registers that do not suffice for nine pages. -/
theorem restoreMtrrs_setMtrrsForAcmod_nine :
    ∃ done changed, setMtrrsForAcmod 0x1000 0x2400 ⟨⟨2, 0xc06, fun _ => ⟨6, 0xffff000800⟩⟩,
        0x11, 0x80, 0x202⟩ = .some (done, changed) ∧
      restoreMtrrs (.some (saveMtrrs ⟨2, 0xc06, fun _ => ⟨6, 0xffff000800⟩⟩)) none changed.msrs =
        ⟨2, 0xc06, fun _ => ⟨6, 0xffff000800⟩⟩ :=
  restoreMtrrs_setMtrrsForAcmod 0x1000 0x2400
    ⟨⟨2, 0xc06, fun _ => ⟨6, 0xffff000800⟩⟩, 0x11, 0x80, 0x202⟩ none (by decide) (by decide)
    (by decide)

end Restore

end Sable
