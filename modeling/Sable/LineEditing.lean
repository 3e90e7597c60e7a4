import Sable.ByteMemory

/-!
# Lines and how they are edited

A line is edited by the characters that come from the keyboard: a backspace takes back the last
character, zero stands for no character, and any other character but a return is appended.
The line editor of `keyboard.c` leaves the edited line in its buffer.
-/

namespace Sable

open ByteMemory

section Editing

/-- The line after one more character, which is no return. -/
def press (held : List UInt8) (c : UInt8) : List UInt8 :=
  if c = 0x08 then held.dropLast else if c = 0 then held else held ++ [c]

/-- What becomes of a line: the text, the number of characters that it took, and whether it has
been finished. -/
structure Line where
  text : List UInt8
  taken : Nat
  finished : Bool
  deriving DecidableEq

/-- Edit the line that is held so far, which ends with a return or when it is full. -/
def editLine (capacity : Nat) (held : List UInt8) : List UInt8 → Line
  | [] => ⟨held, 0, capacity ≤ held.length⟩
  | c :: input =>
      if capacity ≤ held.length then ⟨held, 0, true⟩
      else if c = 0x0D then ⟨held, 1, true⟩
      else
        let line := editLine capacity (press held c) input
        { line with taken := line.taken + 1 }

theorem length_press_le (held : List UInt8) (c : UInt8) :
    (press held c).length ≤ held.length + 1 := by
  rw [press]
  by_cases back : c = 0x08
  · rw [if_pos back, List.length_dropLast]
    omega
  · rw [if_neg back]
    by_cases none : c = 0
    · rw [if_pos none]
      exact Nat.le_succ _
    · rw [if_neg none, List.length_append]
      exact Nat.le_refl _

/-- The line never outgrows its capacity. -/
theorem length_editLine_le {capacity : Nat} {held : List UInt8} (input : List UInt8)
    (room : held.length ≤ capacity) : (editLine capacity held input).text.length ≤ capacity := by
  induction input generalizing held with
  | nil => exact room
  | cons c input ih =>
      rw [editLine]
      by_cases full : capacity ≤ held.length
      · rw [if_pos full]
        exact room
      · rw [if_neg full]
        by_cases ends : c = 0x0D
        · rw [if_pos ends]
          exact room
        · rw [if_neg ends]
          have grown := length_press_le held c
          exact ih (by omega)

end Editing

section Buffers

variable {str : Mem} {held : List UInt8} {c : UInt8}

/-- The line is at the start of the buffer. -/
def Holds (str : Mem) (held : List UInt8) : Prop :=
  read str 0 held.length = held

/-- Whatever is stored behind the line leaves it alone. -/
theorem Holds.behind (holds : Holds str held) (bytes : List UInt8) :
    Holds (write str held.length bytes) held := by
  rw [Holds, read_write_disjoint _ (.inl (Nat.le_of_eq (Nat.zero_add _)))]
  exact holds

theorem Holds.append (holds : Holds str held) :
    Holds (write str held.length [c]) (held ++ [c]) := by
  have stored := read_write_self str held.length [c]
  rw [List.length_singleton] at stored
  rw [Holds, List.length_append, List.length_singleton, read_add, holds.behind [c], Nat.zero_add,
    stored]

theorem Holds.dropLast (holds : Holds str held) : Holds str held.dropLast := by
  rw [Holds, List.length_dropLast, ← take_read str 0 held.length _ (Nat.sub_le _ _), holds,
    List.dropLast_eq_take]

/-- The buffer after one more character, which is no return. -/
def pressInto (str : Mem) (i : Nat) (c : UInt8) : Mem :=
  if c = 0x08 then write str i [0] else if c = 0 then str else write str i [c]

theorem Holds.press (holds : Holds str held) (c : UInt8) :
    Holds (pressInto str held.length c) (press held c) := by
  rw [pressInto, Sable.press]
  by_cases back : c = 0x08
  · rw [if_pos back, if_pos back]
    exact (holds.behind [0]).dropLast
  · rw [if_neg back, if_neg back]
    by_cases none : c = 0
    · rw [if_pos none, if_pos none]
      exact holds
    · rw [if_neg none, if_neg none]
      exact holds.append

end Buffers

end Sable
