import Sable.CellWindows
import Sable.Memcpy
import Sable.TextLayout

/-!
# The screen of `util.c`

`out_char` writes into the last of the 25 rows of the text screen.  At the end of the row, or at
a newline, the rows are moved up by one.  The screen is thus a window on the end of a page
without a first row, and a text without backspaces is laid out on that page line by line.
-/

namespace Sable

open ByteMemory TextLayout

/-- The memory and the variable `col` of `out_char`. -/
structure Vga where
  mem : Mem
  col : UInt32

section Model

/-- The loop of `memset`. -/
def memsetLoop (c : UInt8) : Nat → UInt32 → Mem → Mem
  | 0, _, mem => mem
  | left + 1, p, mem => memsetLoop c left (p + 1) (write mem p.toNat [c])

def memset (mem : Mem) (s : UInt32) (c : UInt8) (len : UInt32) : Mem :=
  memsetLoop c len.toNat s mem

namespace Vga

/-- `BASE`. -/
def base (row : UInt32) : UInt32 :=
  0xb8000 + row * 160

/-- A character on black. -/
def cellOf (value : UInt32) : UInt16 :=
  (0x0f00 ||| value).toUInt16

/-- `*(BASE(24) + col) = cell` -/
def store (s : Vga) (col : UInt32) (cell : UInt16) : Mem :=
  write s.mem (base 24 + 2 * col).toNat (cellBytes cell)

/-- The end of `out_char`, which moves the rows up. -/
def scroll (s : Vga) : Vga :=
  ⟨memset (memcpy s.mem (base 0) (base 0 + 160) (24 * 160)).2 (base 24) 0 160, 0⟩

/-- `out_char` without the move. -/
def place (value : UInt32) (s : Vga) : Vga :=
  if value ≠ 0x0A then
    if value = 0x08 then ⟨s.store (s.col - 1) (cellOf 0x20), s.col - 1⟩
    else ⟨s.store s.col (cellOf value), s.col + 1⟩
  else s

def outChar (value : UInt32) (s : Vga) : Vga :=
  let placed := place value s
  if placed.col ≥ 80 ∨ value = 0x0A then placed.scroll else placed

/-- A `char`, which is signed, as an argument of `out_char`. -/
def charValue (c : UInt8) : UInt32 :=
  c.toInt8.toInt32.toUInt32

def outString (value : List UInt8) (s : Vga) : Vga :=
  value.foldl (fun s c => outChar (charValue c) s) s

end Vga

end Model

section Moves

theorem toNat_base : (Vga.base 24).toNat = 0xb8000 + 2 * 1920 :=
  rfl

theorem memsetLoop_eq (c : UInt8) (left : Nat) (p : UInt32) (mem : Mem)
    (fits : p.toNat + left < 2 ^ 32) :
    memsetLoop c left p mem = write mem p.toNat (List.replicate left c) := by
  induction left generalizing p mem with
  | zero => rw [memsetLoop, List.replicate_zero, write_nil]
  | succ left ih =>
      have next : (p + 1).toNat = p.toNat + 1 := toNat_add_one (by omega)
      have joined := write_write_append mem p.toNat [c] (List.replicate left c)
      rw [List.length_singleton, List.singleton_append, ← List.replicate_succ] at joined
      rw [memsetLoop, ih _ _ (by omega), next, joined]

theorem Vga.scroll_mem (s : Vga) :
    s.scroll.mem = write (moved s.mem 0xb8000 (0xb8000 + 2 * 80) 0 (2 * 1920)) (0xb8000 + 2 * 1920)
      (List.replicate (2 * 80) 0) := by
  have copied := @memcpy_eq_moved s.mem (Vga.base 0) (Vga.base 0 + 160) (24 * 160) (by decide)
    (by decide)
  have top : (Vga.base 0).toNat = 0xb8000 := rfl
  have second : (Vga.base 0 + 160).toNat = 0xb8000 + 2 * 80 := rfl
  have rest : (24 * 160 : UInt32).toNat = 2 * 1920 := rfl
  have width : (160 : UInt32).toNat = 2 * 80 := rfl
  rw [top, second, rest] at copied
  rw [Vga.scroll, memset, memsetLoop_eq _ _ _ _ (by decide), copied, toNat_base, width]

theorem toNat_place {col : UInt32} (narrow : col.toNat < 80) :
    (Vga.base 24 + 2 * col).toNat = 0xb8000 + 2 * (1920 + col.toNat) := by
  have two : (2 : UInt32).toNat = 2 := rfl
  rw [UInt32.toNat_add, UInt32.toNat_mul, toNat_base, two]
  omega

/-- In the first column the place before is the end of the row above. -/
theorem toNat_place_before {col : UInt32} (narrow : col.toNat < 80) :
    (Vga.base 24 + 2 * (col - 1)).toNat = 0xb8000 + 2 * (1919 + col.toNat) := by
  have two : (2 : UInt32).toNat = 2 := rfl
  have one : (1 : UInt32).toNat = 1 := rfl
  rw [UInt32.toNat_add, UInt32.toNat_mul, UInt32.toNat_sub, toNat_base, two, one]
  omega

end Moves

section Pages

/-- All rows that have been shown, from the first to the one that is written. -/
structure Page where
  cells : List UInt16
  col : Nat

/-- An empty row is begun. -/
def Page.newline (cells : List UInt16) : Page :=
  ⟨cells ++ List.replicate 80 0, 0⟩

/-- What a character does to the page.  A backspace in the first column erases the end of the
row above and begins a new row. -/
def Page.type (page : Page) (value : UInt32) : Page :=
  if value = 0x0A then .newline page.cells
  else if value = 0x08 then
    let erased := page.cells.set (page.cells.length - 81 + page.col) (Vga.cellOf 0x20)
    if page.col = 0 then .newline erased else ⟨erased, page.col - 1⟩
  else
    let typed := page.cells.set (page.cells.length - 80 + page.col) (Vga.cellOf value)
    if page.col = 79 then .newline typed else ⟨typed, page.col + 1⟩

/-- The last cells of a page. -/
def lastCells (count : Nat) (page : List UInt16) : List UInt16 :=
  page.drop (page.length - count)

theorem lastCells_set {count i : Nat} {page : List UInt16} (cell : UInt16) :
    lastCells count (page.set (page.length - count + i) cell) =
      (lastCells count page).set i cell := by
  rw [lastCells, lastCells, List.length_set, List.drop_set, if_neg (by omega),
    Nat.add_sub_cancel_left]

theorem lastCells_append {count : Nat} {page row : List UInt16} (short : row.length ≤ count)
    (long : count ≤ page.length) :
    lastCells count (page ++ row) = (lastCells count page).drop row.length ++ row := by
  have start : page.length + row.length - count = page.length - count + row.length := by omega
  rw [lastCells, lastCells, List.length_append, start, List.drop_append_of_le_length (by omega),
    List.drop_drop]

/-- The screen is the end of the page. -/
structure Vga.Shows (s : Vga) (page : Page) : Prop where
  window : cells s.mem 0xb8000 2000 = lastCells 2000 page.cells
  long : 2000 ≤ page.cells.length
  col : s.col.toNat = page.col
  narrow : page.col < 80

/-- Nothing but the screen has been written. -/
def Vga.Frame (before after : Vga) : Prop :=
  ∀ a, a < 0xb8000 ∨ 0xb8000 + 2 * 2000 ≤ a → after.mem a = before.mem a

namespace Vga

variable {s next : Vga} {page : Page} {value : UInt32}

theorem store_cells {col : UInt32} {i : Nat} {page : List UInt16} {cell : UInt16}
    (window : cells s.mem 0xb8000 2000 = lastCells 2000 page)
    (place : (base 24 + 2 * col).toNat = 0xb8000 + 2 * i) :
    cells (s.store col cell) 0xb8000 2000 =
      lastCells 2000 (page.set (page.length - 2000 + i) cell) := by
  rw [store, place, cells_write, window, lastCells_set]

theorem store_frame {col : UInt32} {i : Nat} {cell : UInt16} (inside : i < 2000)
    (place : (base 24 + 2 * col).toNat = 0xb8000 + 2 * i) (after : UInt32) :
    Frame s ⟨s.store col cell, after⟩ := by
  intro a outside
  rw [store, place]
  exact write_outside s.mem (by rw [length_cellBytes]; omega)

theorem scroll_frame (s : Vga) : Frame s s.scroll := by
  intro a outside
  rw [scroll_mem, write_outside _ (by simp only [List.length_replicate]; omega),
    moved_outside (by omega)]

theorem scroll_shows {page : List UInt16}
    (window : cells s.mem 0xb8000 2000 = lastCells 2000 page) (long : 2000 ≤ page.length) :
    Shows s.scroll (.newline page) := by
  refine ⟨?_, ?_, rfl, Nat.zero_lt_succ 79⟩
  · have scrolled := @cells_scroll s.mem 0xb8000 2000 80 (by decide)
    rw [Page.newline, lastCells_append (by simp) long, List.length_replicate, ← window,
      ← scrolled, scroll_mem]
  · rw [Page.newline, List.length_append]
    omega

/-- What `out_char` writes in the place of the cursor. -/
theorem Shows.store (shows : Shows s page) (cell : UInt16) :
    cells (s.store s.col cell) 0xb8000 2000 =
      lastCells 2000 (page.cells.set (page.cells.length - 80 + page.col) cell) := by
  have narrow := shows.narrow
  have long := shows.long
  have place := toNat_place (shows.col ▸ narrow : s.col.toNat < 80)
  have here : page.cells.length - 2000 + (1920 + page.col) = page.cells.length - 80 + page.col := by
    omega
  rw [store_cells shows.window place, shows.col, here]

/-- What `out_char` writes in the place before. -/
theorem Shows.erase (shows : Shows s page) (cell : UInt16) :
    cells (s.store (s.col - 1) cell) 0xb8000 2000 =
      lastCells 2000 (page.cells.set (page.cells.length - 81 + page.col) cell) := by
  have narrow := shows.narrow
  have long := shows.long
  have place := toNat_place_before (shows.col ▸ narrow : s.col.toNat < 80)
  have here : page.cells.length - 2000 + (1919 + page.col) = page.cells.length - 81 + page.col := by
    omega
  rw [store_cells shows.window place, shows.col, here]

theorem outChar_shows (shows : Shows s page) (value : UInt32) :
    Shows (outChar value s) (page.type value) ∧ Frame s (outChar value s) := by
  have narrow := shows.narrow
  have long := shows.long
  have column : s.col.toNat < 80 := shows.col ▸ narrow
  have eighty : (80 : UInt32).toNat = 80 := rfl
  have one : (1 : UInt32).toNat = 1 := rfl
  by_cases newline : value = 0x0A
  · rw [outChar, place, if_neg (not_not_intro newline), if_pos (.inr newline), Page.type,
      if_pos newline]
    exact ⟨scroll_shows shows.window long, scroll_frame s⟩
  by_cases backspace : value = 0x08
  · rw [outChar, place, if_pos newline, if_pos backspace, Page.type, if_neg newline,
      if_pos backspace]
    have frame := @store_frame s (s.col - 1) _ (cellOf 0x20) (by omega)
      (toNat_place_before column)
    have erased := shows.erase (cellOf 0x20)
    by_cases first : page.col = 0
    · -- the column wraps, and the row is given up
      have wraps : s.col - 1 ≥ 80 := by
        rw [ge_iff_le, UInt32.le_iff_toNat_le, UInt32.toNat_sub, eighty, one]
        have := shows.col
        omega
      rw [if_pos (.inl wraps), if_pos first]
      refine ⟨scroll_shows erased (by rw [List.length_set]; exact long), fun a outside => ?_⟩
      exact (scroll_frame _ a outside).trans (frame _ a outside)
    · have back : (s.col - 1).toNat = page.col - 1 := by
        rw [UInt32.toNat_sub, one]
        have := shows.col
        omega
      have stays : ¬ (s.col - 1 ≥ 80 ∨ value = 0x0A) := by
        rw [ge_iff_le, UInt32.le_iff_toNat_le, eighty, back]
        exact not_or.mpr ⟨by omega, newline⟩
      rw [if_neg stays, if_neg first]
      exact ⟨⟨erased, by rw [List.length_set]; exact long, back, by dsimp only; omega⟩, frame _⟩
  · rw [outChar, place, if_pos newline, if_neg backspace, Page.type, if_neg newline,
      if_neg backspace]
    have frame := @store_frame s s.col _ (cellOf value) (by omega) (toNat_place column)
    have typed := shows.store (cellOf value)
    have further : (s.col + 1).toNat = page.col + 1 := by
      rw [toNat_add_one (by omega), shows.col]
    by_cases last : page.col = 79
    · have full : s.col + 1 ≥ 80 := by
        rw [ge_iff_le, UInt32.le_iff_toNat_le, eighty, further]
        omega
      rw [if_pos (.inl full), if_pos last]
      refine ⟨scroll_shows typed (by rw [List.length_set]; exact long), fun a outside => ?_⟩
      exact (scroll_frame _ a outside).trans (frame _ a outside)
    · have stays : ¬ (s.col + 1 ≥ 80 ∨ value = 0x0A) := by
        rw [ge_iff_le, UInt32.le_iff_toNat_le, eighty, further]
        exact not_or.mpr ⟨by omega, newline⟩
      rw [if_neg stays, if_neg last]
      exact ⟨⟨typed, by rw [List.length_set]; exact long, further, by dsimp only; omega⟩, frame _⟩

theorem outChars_shows (shows : Shows s page) (values : List UInt32) :
    Shows (values.foldl (fun s value => outChar value s) s) (values.foldl Page.type page) ∧
      Frame s (values.foldl (fun s value => outChar value s) s) := by
  induction values generalizing s page with
  | nil => exact ⟨shows, fun _ _ => rfl⟩
  | cons value values ih =>
      obtain ⟨next, first⟩ := outChar_shows shows value
      obtain ⟨last, rest⟩ := ih next
      exact ⟨last, fun a outside => (rest a outside).trans (first a outside)⟩

theorem window_self (mem : Mem) :
    cells mem 0xb8000 2000 = lastCells 2000 (cells mem 0xb8000 2000) := by
  rw [lastCells, length_cells, Nat.sub_self, List.drop_zero]

/-- The screen after any output is the end of the page that the output makes, and nothing
else has been written. -/
theorem outChars_page (mem : Mem) (values : List UInt32) :
    Shows (values.foldl (fun s value => outChar value s) ⟨mem, 0⟩)
        (values.foldl Page.type ⟨cells mem 0xb8000 2000, 0⟩) ∧
      Frame ⟨mem, 0⟩ (values.foldl (fun s value => outChar value s) ⟨mem, 0⟩) := by
  have start : Shows ⟨mem, 0⟩ ⟨cells mem 0xb8000 2000, 0⟩ := by
    refine ⟨?_, ?_, rfl, Nat.zero_lt_succ 79⟩
    · dsimp only
      exact window_self mem
    · simp only [length_cells, Nat.le_refl]
  exact outChars_shows start values

end Vga

end Pages

section Texts

theorem charValue_inj {c d : UInt8} : Vga.charValue c = Vga.charValue d ↔ c = d := by
  have back (c : UInt8) : (Vga.charValue c).toInt32.toInt8.toUInt8 = c := by
    simp [Vga.charValue]
  refine ⟨fun same => ?_, fun same => by rw [same]⟩
  rw [← back c, same, back]

/-- A row of the screen that begins with some characters. -/
def padded (row : List UInt8) : List UInt16 :=
  row.map (fun c => Vga.cellOf (Vga.charValue c)) ++ List.replicate (80 - row.length) 0

variable {before : List UInt16} {row text : List UInt8} {c : UInt8}

theorem length_padded (short : row.length ≤ 80) : (padded row).length = 80 := by
  rw [padded, List.length_append, List.length_map, List.length_replicate]
  omega

/-- A character is put behind a row that is not full. -/
theorem padded_set (short : row.length < 80) :
    (before ++ padded row).set ((before ++ padded row).length - 80 + row.length)
        (Vga.cellOf (Vga.charValue c)) = before ++ padded (row ++ [c]) := by
  have place : (before ++ padded row).length - 80 + row.length = before.length + row.length := by
    rw [List.length_append, length_padded (Nat.le_of_lt short)]
    omega
  have width : 80 - row.length = 80 - (row ++ [c]).length + 1 := by
    rw [List.length_append, List.length_singleton]
    omega
  rw [place, List.set_append_right _ _ (by omega), Nat.add_sub_cancel_left, padded,
    List.set_append_right _ _ (by simp), List.length_map, Nat.sub_self, width,
    List.replicate_succ, List.set_cons_zero, padded, List.map_append, List.append_assoc]
  rfl

theorem type_newline :
    Page.type ⟨before ++ padded row, row.length⟩ (Vga.charValue 0x0A) =
      ⟨(before ++ padded row) ++ padded [], ([] : List UInt8).length⟩ := by
  have newline : Vga.charValue 0x0A = 0x0A := rfl
  rw [Page.type, if_pos newline]
  rfl

theorem type_char (short : row.length < 80) (newline : c ≠ 0x0A) (backspace : c ≠ 0x08) :
    Page.type ⟨before ++ padded row, row.length⟩ (Vga.charValue c) =
      if row.length = 79 then
        ⟨(before ++ padded (row ++ [c])) ++ padded [], ([] : List UInt8).length⟩
      else ⟨before ++ padded (row ++ [c]), (row ++ [c]).length⟩ := by
  have notNewline : Vga.charValue c ≠ 0x0A := fun same =>
    newline (charValue_inj.mp (same.trans (rfl : 0x0A = Vga.charValue 0x0A)))
  have notBackspace : Vga.charValue c ≠ 0x08 := fun same =>
    backspace (charValue_inj.mp (same.trans (rfl : 0x08 = Vga.charValue 0x08)))
  rw [Page.type, if_neg notNewline, if_neg notBackspace]
  dsimp only
  rw [padded_set short, List.length_append, List.length_singleton]
  rfl

/-- A text without backspaces goes on from the row that has been begun. -/
theorem type_text (clean : 0x08 ∉ text) (begun : 0x0A ∉ row) (short : row.length < 80) :
    ((text.map Vga.charValue).foldl Page.type ⟨before ++ padded row, row.length⟩).cells =
      before ++ (layout 80 0x0A (row ++ text)).flatMap padded := by
  induction text generalizing before row with
  | nil =>
      rw [List.append_nil, layout_short begun short, List.flatMap_singleton]
      rfl
  | cons c text ih =>
      obtain ⟨backspace, clean⟩ := not_or.mp (mt List.mem_cons.mpr clean)
      rw [List.map_cons, List.foldl_cons]
      by_cases newline : c = 0x0A
      · rw [newline, type_newline, ih clean List.not_mem_nil (Nat.zero_lt_succ 79),
          layout_newline begun short, List.flatMap_cons, List.append_assoc, List.nil_append]
      have further : 0x0A ∉ row ++ [c] := by
        rw [List.mem_append, List.mem_singleton]
        exact not_or.mpr ⟨begun, Ne.symm newline⟩
      have joined : row ++ c :: text = (row ++ [c]) ++ text := by simp
      rw [type_char short newline (Ne.symm backspace), joined]
      by_cases last : row.length = 79
      · have full : (row ++ [c]).length = 80 := by
          rw [List.length_append, last, List.length_singleton]
        rw [if_pos last, ih clean List.not_mem_nil (Nat.zero_lt_succ 79),
          layout_full (by decide) further full, List.flatMap_cons, List.append_assoc,
          List.nil_append]
      · rw [if_neg last, ih clean further]
        rw [List.length_append, List.length_singleton]
        omega

namespace Vga

/-- Behind a newline, a text without backspaces is shown line by line: a line that is longer
than the screen goes on in the next row, and what was there before moves up. -/
theorem outString_layout (s : Vga) {text : List UInt8} (clean : 0x08 ∉ text) :
    cells (outString text (outChar 0x0A s)).mem 0xb8000 2000 =
      lastCells 2000 (cells s.mem 0xb8000 2000 ++ (layout 80 0x0A text).flatMap padded) := by
  have newline : outChar 0x0A s = s.scroll := by
    rw [outChar, place, if_neg (not_not_intro rfl), if_pos (.inr rfl)]
  have scrolled := scroll_shows (window_self s.mem) (by simp only [length_cells, Nat.le_refl])
  have typed := @type_text (cells s.mem 0xb8000 2000) [] text clean List.not_mem_nil
    (Nat.zero_lt_succ 79)
  have shown := (outChars_shows scrolled (text.map charValue)).1.window
  rw [List.foldl_map] at shown
  rw [newline, outString, shown, ← List.nil_append text, ← typed, List.nil_append]
  rfl

/-- A line of two characters on an empty screen. -/
theorem outString_layout_ok :
    cells (outString [0x4f, 0x6b] (outChar 0x0A ⟨fun _ => 0, 0⟩)).mem 0xb8000 2000 =
      lastCells 2000 (cells (fun _ => 0) 0xb8000 2000 ++
        (layout 80 0x0A ([0x4f, 0x6b] : List UInt8)).flatMap padded) :=
  outString_layout _ (by decide)

end Vga

end Texts

end Sable
