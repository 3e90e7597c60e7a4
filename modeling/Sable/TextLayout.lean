import Mathlib.Data.List.Basic

/-!
# Lines of a fixed width

A text is split into lines, and each line into rows of a fixed width.  A line whose length is a
multiple of the width ends with an empty row, in which a cursor stands.
-/

namespace TextLayout

variable {α : Type}

/-- The rows of a line. -/
def wrap (width : Nat) (line : List α) : List (List α) :=
  (List.range (line.length / width + 1)).map fun k => (line.drop (width * k)).take width

/-- The rows of a text. -/
def layout [BEq α] (width : Nat) (newline : α) (text : List α) : List (List α) :=
  (text.splitOn newline).flatMap (wrap width)

variable {width : Nat} {newline : α} {row line rest : List α}

theorem wrap_short (short : line.length < width) : wrap width line = [line] := by
  rw [wrap, Nat.div_eq_of_lt short]
  simp only [Nat.zero_add, List.range_one, List.map_cons, List.map_nil, Nat.mul_zero,
    List.drop_zero, List.take_of_length_le (Nat.le_of_lt short)]

theorem wrap_full (positive : 0 < width) (full : row.length = width) :
    wrap width (row ++ line) = row :: wrap width line := by
  have count : (row ++ line).length / width = line.length / width + 1 := by
    rw [List.length_append, full, Nat.add_div_left _ positive]
  rw [wrap, count, List.range_succ_eq_map, List.map_cons, List.map_map, wrap, Nat.mul_zero,
    List.drop_zero, List.take_left' full]
  congr 1
  apply List.map_congr_left
  intro k _
  have next : width * (k + 1) = row.length + width * k := by rw [full, Nat.mul_succ, Nat.add_comm]
  rw [Function.comp_apply, Nat.succ_eq_add_one, next, List.drop_length_add_append]

section Lines

variable [BEq α] [LawfulBEq α]

theorem separates (clean : newline ∉ row) (c : α) (member : c ∈ row) : (c == newline) = false := by
  rw [beq_eq_false_iff_ne]
  exact fun same => clean (same ▸ member)

theorem layout_short (clean : newline ∉ row) (short : row.length < width) :
    layout width newline row = [row] := by
  have whole : row.splitOn newline = [row] := List.splitOnP_eq_singleton (separates clean)
  rw [layout, whole, List.flatMap_singleton, wrap_short short]

/-- A row that a newline ends. -/
theorem layout_newline (clean : newline ∉ row) (short : row.length < width) :
    layout width newline (row ++ newline :: rest) = row :: layout width newline rest := by
  have split : (row ++ newline :: rest).splitOn newline = row :: rest.splitOn newline :=
    @List.splitOnP_append_cons_of_forall_mem _ (· == newline) row (separates clean) newline
      (beq_self_eq_true newline) rest
  rw [layout, split, List.flatMap_cons, wrap_short short]
  rfl

theorem splitOn_prefix (clean : newline ∉ row) :
    (row ++ rest).splitOn newline = (rest.splitOn newline).modifyHead (row ++ ·) := by
  induction row with
  | nil =>
      rw [List.nil_append]
      cases rest.splitOn newline <;> rfl
  | cons c row ih =>
      obtain ⟨different, clean⟩ := not_or.mp (mt List.mem_cons.mpr clean)
      have other : (c == newline) = false := beq_eq_false_iff_ne.mpr (Ne.symm different)
      rw [List.cons_append, List.splitOn_cons_eq_if_modifyHead, other, ih clean,
        List.modifyHead_modifyHead]
      rfl

/-- A row that is full. -/
theorem layout_full (positive : 0 < width) (clean : newline ∉ row) (full : row.length = width) :
    layout width newline (row ++ rest) = row :: layout width newline rest := by
  rw [layout, layout, splitOn_prefix clean]
  cases lines : rest.splitOn newline with
  | nil => exact absurd lines (List.splitOn_ne_nil newline rest)
  | cons line lines =>
      rw [List.modifyHead_cons, List.flatMap_cons, List.flatMap_cons, wrap_full positive full]
      rfl

end Lines

end TextLayout
