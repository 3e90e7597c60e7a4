import Sable.Boot
import Sable.Terminal

/-!
# The keyboard driver of `keyboard.c`

`getchar` takes one scancode from the controller and looks it up in `kkybrd_scancode_std`, with
the highest bit cleared.  The table has 83 entries, fewer than there are scancodes; what is
found behind it is a parameter.  The state keeps a record of the places that are looked up and
of the commands that are sent to the encoder.
-/

namespace Sable

open ByteMemory HaltingProgram

section KeyCodes

def keyReturn : UInt32 := 0x0D
def keyEscape : UInt32 := 0x1001
def keyBackspace : UInt32 := 0x08
def keyF1 : UInt32 := 0x1201
def keyF2 : UInt32 := 0x1202
def keyF3 : UInt32 := 0x1203
def keyF4 : UInt32 := 0x1204
def keyF5 : UInt32 := 0x1205
def keyF6 : UInt32 := 0x1206
def keyF7 : UInt32 := 0x1207
def keyF8 : UInt32 := 0x1208
def keyF9 : UInt32 := 0x1209
def keyF10 : UInt32 := 0x120a
def keyF11 : UInt32 := 0x120b
def keyF12 : UInt32 := 0x120b
def keyKpNumlock : UInt32 := 0x300f
def keyTab : UInt32 := 0x4000
def keyCapslock : UInt32 := 0x4001
def keyLshift : UInt32 := 0x4002
def keyLctrl : UInt32 := 0x4003
def keyRshift : UInt32 := 0x4006
def keyRalt : UInt32 := 0x4008
def keyHome : UInt32 := 0x400c
def keyPageup : UInt32 := 0x400e
def keyScrolllock : UInt32 := 0x4010
def keyUnknown : UInt32 := 0x4012

/-- The key code of a key with a character. -/
def keyChar (c : Char) : UInt32 :=
  UInt32.ofNat c.toNat

def kkybrdScancodeStd : List UInt32 :=
  [keyUnknown, keyEscape] ++
    ['1', '2', '3', '4', '5', '6', '7', '8', '9', '0', '-', '='].map keyChar ++
    [keyBackspace, keyTab] ++
    ['q', 'w', 'e', 'r', 't', 'y', 'u', 'i', 'o', 'p', '[', ']'].map keyChar ++
    [keyReturn, keyLctrl] ++
    ['a', 's', 'd', 'f', 'g', 'h', 'j', 'k', 'l', ';', '\'', '`'].map keyChar ++
    [keyLshift] ++ ['\\', 'z', 'x', 'c', 'v', 'b', 'n', 'm', ',', '.', '/'].map keyChar ++
    [keyRshift, keyChar '*', keyRalt, keyChar ' ', keyCapslock, keyF1, keyF2, keyF3, keyF4, keyF5,
      keyF6, keyF7, keyF8, keyF9, keyF10, keyKpNumlock, keyScrolllock, keyHome, keyChar '8',
      keyPageup, keyChar '2', keyChar '3', keyChar '0', keyChar '.', keyUnknown, keyUnknown,
      keyUnknown, keyF11, keyF12]

example : kkybrdScancodeStd.length = 83 := by
  decide

/-- What is found at a place of the table or behind it. -/
def keyAt (beyond : Nat → UInt32) (i : Nat) : UInt32 :=
  kkybrdScancodeStd.getD i (beyond i)

def ascii (c : Char) : UInt8 :=
  UInt8.ofNat c.toNat

/-- The keys that have another character with shift. -/
def shiftedKeys : List (UInt8 × UInt8) :=
  [('0', ')'), ('1', '!'), ('2', '@'), ('3', '!'), ('4', '#'), ('5', '%'), ('6', '^'), ('7', '&'),
    ('8', '*'), ('9', '('), (',', '<'), ('.', '>'), ('/', '?'), (';', ':'), ('\'', '"'),
    ('[', '\x7b'), (']', '\x7d'), ('`', '~'), ('-', '_'), ('+', '='), ('\\', '|')].map fun keys =>
      (ascii keys.1, ascii keys.2)

/-- `kybrd_key_to_ascii` -/
def kybrdKeyToAscii (shift capslock : Bool) (code : UInt32) : UInt8 :=
  let key := code.toUInt8
  if key ≤ 0x7F then
    let key := if (shift || capslock) ∧ ascii 'a' ≤ key ∧ key ≤ ascii 'z' then key - 32 else key
    if shift && !capslock then (shiftedKeys.lookup key).getD key else key
  else 0

/-- The commands of `kkybrd_set_leds`. -/
def kkybrdSetLeds (num caps : Bool) : List UInt8 :=
  let data : UInt8 := if caps then num.toUInt8 ||| 4 else num.toUInt8 &&& 4
  [0xED, data]

end KeyCodes

/-- The scancodes that will come from the controller and the state of the driver. -/
structure Keyboard where
  input : List UInt8
  scancode : UInt8
  shift : Bool
  capslock : Bool
  lookups : List Nat
  sent : List UInt8

section Driver

variable (beyond : Nat → UInt32)

/-- The place of a scancode in the table is put on record. -/
def Keyboard.lookedUp (kb : Keyboard) (input : List UInt8) (i : Nat) : Keyboard :=
  { kb with input := input, lookups := i :: kb.lookups }

def Keyboard.getchar (kb : Keyboard) : Option (UInt8 × Keyboard) :=
  match kb.input with
  | [] => none
  | code :: input =>
      if code &&& 0x80 ≠ 0 then
        let code := code - 0x80
        let key := keyAt beyond code.toNat
        let kb := kb.lookedUp input code.toNat
        if key = keyLshift ∨ key = keyRshift then some (0, { kb with shift := false })
        else some (kybrdKeyToAscii kb.shift kb.capslock key, kb)
      else
        let key := keyAt beyond code.toNat
        let kb := { kb.lookedUp input code.toNat with scancode := code }
        if key = keyLshift ∨ key = keyRshift then some (0, { kb with shift := true })
        else if key = keyCapslock then
          let capslock := !kb.capslock
          some (0, { kb with
            capslock := capslock
            sent := kb.sent ++ kkybrdSetLeds false capslock })
        else some (0, kb)

/-- The characters that are delivered for as many scancodes. -/
def Keyboard.typed : Nat → Keyboard → List UInt8
  | 0, _ => []
  | count + 1, kb =>
      match kb.getchar beyond with
      | none => []
      | some (c, kb) => c :: typed count kb

end Driver

section Callers

/-- The functions that read a line. -/
inductive Caller
  | getAuthdata
  | configure
  | trustedBoot
  | postLaunch
  deriving DecidableEq

/-- The size of the buffer. -/
def Caller.buffer : Caller → Nat
  | getAuthdata => authdataStrSize
  | configure => passphraseStrSize.toNat
  | trustedBoot => 4
  | postLaunch => 2

/-- The argument `strSize`. -/
def Caller.strSize : Caller → Nat
  | getAuthdata => authdataStrSize
  | configure => passphraseStrSize.toNat - 1
  | trustedBoot => 4
  | postLaunch => 2 - 1

def Caller.shown : Caller → Bool
  | getAuthdata => false
  | _ => true

variable (beyond : Nat → UInt32)

/-- A line is read into the buffer of a caller. -/
def Caller.getString (caller : Caller) (kb : Keyboard) (buffer : Mem) :
    Outcome Halt (Terminal Keyboard) Nat :=
  Terminal.getString (Keyboard.getchar beyond) caller.strSize caller.shown (kb.input.length + 1)
    ⟨kb, buffer, [], []⟩

/-- The line that is typed for a caller, behind the first character. -/
def Caller.line (caller : Caller) (kb : Keyboard) : Line :=
  editLine caller.strSize [] (kb.typed beyond kb.input.length).tail

/-- Nothing is looked up behind the table and nothing is written behind the buffer. -/
structure Caller.InBounds (caller : Caller) (reached : Terminal Keyboard) : Prop where
  lookups : ∀ i ∈ reached.source.lookups, i < kkybrdScancodeStd.length
  writes : ∀ i ∈ reached.writes, i < caller.buffer

end Callers

section Lookups

variable {beyond : Nat → UInt32} {kb last : Keyboard} {code : UInt8} {input chars : List UInt8}

/-- The place at which a scancode is looked up. -/
def scanIndex (code : UInt8) : Nat :=
  code.toNat % 128

theorem released_iff : ∀ n < 256, UInt8.ofNat n &&& 0x80 ≠ 0 ↔ 128 ≤ n := by
  decide +kernel

theorem scanIndex_break (released : code &&& 0x80 ≠ 0) : (code - 0x80).toNat = scanIndex code := by
  have small := code.toNat_lt
  have high : 128 ≤ code.toNat := by
    rw [← released_iff code.toNat small, UInt8.ofNat_toNat]
    exact released
  rw [UInt8.toNat_sub_of_le code 0x80 (UInt8.le_iff_toNat_le.mpr high), scanIndex]
  have half : (0x80 : UInt8).toNat = 128 := rfl
  omega

theorem scanIndex_make (pressed : ¬ code &&& 0x80 ≠ 0) : code.toNat = scanIndex code := by
  have low : ¬ 128 ≤ code.toNat := by
    rw [← released_iff code.toNat code.toNat_lt, UInt8.ofNat_toNat]
    exact pressed
  exact (Nat.mod_eq_of_lt (Nat.lt_of_not_le low)).symm

theorem getchar_step (codes : kb.input = code :: input) :
    ∃ c after, kb.getchar beyond = some (c, after) ∧ after.input = input ∧
      after.lookups = scanIndex code :: kb.lookups := by
  rw [Keyboard.getchar, codes]
  dsimp only
  by_cases released : code &&& 0x80 ≠ 0
  · have index := scanIndex_break released
    rw [if_pos released]
    split
    · exact ⟨_, _, rfl, rfl, congrArg (· :: kb.lookups) index⟩
    · exact ⟨_, _, rfl, rfl, congrArg (· :: kb.lookups) index⟩
  · have index := scanIndex_make released
    rw [if_neg released]
    split
    · exact ⟨_, _, rfl, rfl, congrArg (· :: kb.lookups) index⟩
    · split
      · exact ⟨_, _, rfl, rfl, congrArg (· :: kb.lookups) index⟩
      · exact ⟨_, _, rfl, rfl, congrArg (· :: kb.lookups) index⟩

theorem getchar_none (codes : kb.input = []) : kb.getchar beyond = none := by
  rw [Keyboard.getchar, codes]

/-- One character is delivered for each scancode. -/
theorem typed_delivers (codes : kb.input = input) :
    ∃ last, Terminal.Delivers (Keyboard.getchar beyond) kb (kb.typed beyond input.length) last ∧
      last.input = [] ∧ (kb.typed beyond input.length).length = input.length := by
  induction input generalizing kb with
  | nil => exact ⟨kb, .nothing kb, codes, rfl⟩
  | cons code input ih =>
      obtain ⟨c, after, got, rest, -⟩ := @getchar_step beyond kb code input codes
      obtain ⟨last, delivers, ends, length⟩ := ih rest
      rw [List.length_cons, Keyboard.typed, got]
      exact ⟨last, .character got delivers, ends, congrArg Nat.succ length⟩

/-- Each scancode that is taken is looked up once. -/
theorem delivers_lookups (delivers : Terminal.Delivers (Keyboard.getchar beyond) kb chars last) :
    ∀ i, i ∈ last.lookups ↔
      i ∈ kb.lookups ∨ ∃ code ∈ kb.input.take chars.length, scanIndex code = i := by
  induction delivers with
  | nothing source => simp
  | character first rest ih =>
      rename_i source after last c taken
      cases codes : source.input with
      | nil =>
          rw [getchar_none codes] at first
          cases first
      | cons code input =>
          obtain ⟨c', after', got, left, looked⟩ := @getchar_step beyond source code input codes
          rw [got] at first
          cases first
          intro i
          rw [ih, left, looked, List.length_cons, List.take_succ_cons]
          constructor
          · rintro (member | ⟨code', member, index⟩)
            · rcases List.mem_cons.mp member with rfl | before
              · exact .inr ⟨code, List.mem_cons_self, rfl⟩
              · exact .inl before
            · exact .inr ⟨code', List.mem_cons_of_mem code member, index⟩
          · rintro (before | ⟨code', member, index⟩)
            · exact .inl (List.mem_cons_of_mem _ before)
            · rcases List.mem_cons.mp member with rfl | later
              · exact .inl (index ▸ List.mem_cons_self)
              · exact .inr ⟨code', later, index⟩

end Lookups

section Bounds

variable {beyond : Nat → UInt32} {kb : Keyboard} {buffer : Mem}

theorem strSize_le_buffer (caller : Caller) : caller.strSize ≤ caller.buffer := by
  cases caller <;> decide

theorem strSize_pos (caller : Caller) : 0 < caller.strSize := by
  cases caller <;> decide

/-- A line that fills the buffer is finished. -/
theorem editLine_full {capacity : Nat} {held input : List UInt8}
    (full : (editLine capacity held input).text.length = capacity) :
    (editLine capacity held input).finished = true := by
  induction input generalizing held with
  | nil =>
      rw [editLine] at full ⊢
      exact decide_eq_true (Nat.le_of_eq full.symm)
  | cons c input ih =>
      rw [editLine] at full ⊢
      by_cases filled : capacity ≤ held.length
      · rw [if_pos filled]
      · rw [if_neg filled] at full ⊢
        by_cases ends : c = 0x0D
        · rw [if_pos ends]
        · rw [if_neg ends] at full ⊢
          exact ih full

/-- A keyboard from which nothing has been read yet: what a caller looks up and writes. -/
theorem getString_bounds (caller : Caller) (fresh : kb.lookups = []) (buffer : Mem) :
    (∀ i, i ∈ (caller.getString beyond kb buffer).state.source.lookups ↔
        ∃ code ∈ kb.input.take ((caller.line beyond kb).taken + 1), scanIndex code = i) ∧
      ∃ more, (∀ i ∈ more, i < caller.strSize) ∧
        (caller.getString beyond kb buffer).state.writes =
          if (caller.line beyond kb).finished then (caller.line beyond kb).text.length :: more
          else more := by
  cases codes : kb.input with
  | nil =>
      have blocked : Terminal.getchar (Keyboard.getchar beyond) ⟨kb, buffer, [], []⟩ =
          .halt .blocked ⟨kb, buffer, [], []⟩ := by
        rw [Terminal.getchar, getchar_none codes]
      have unfinished : (caller.line beyond kb).finished = false := by
        rw [Caller.line, codes]
        exact decide_eq_false (Nat.not_le_of_lt (strSize_pos caller))
      rw [Caller.getString, Terminal.getString, Prog.bind_halt blocked, unfinished]
      refine ⟨fun i => ?_, [], by simp, rfl⟩
      have none : (Outcome.halt Halt.blocked
          (⟨kb, buffer, [], []⟩ : Terminal Keyboard) : Outcome _ _ Nat).state.source.lookups = [] :=
        fresh
      rw [none]
      simp
  | cons code input =>
      obtain ⟨last, delivers, ends, length⟩ := @typed_delivers beyond kb (code :: input) codes
      obtain ⟨c, chars, typed⟩ : ∃ c chars, kb.typed beyond (code :: input).length = c :: chars :=
        List.exists_cons_of_length_eq_add_one (length.trans (List.length_cons))
      rw [typed] at delivers length
      have short : chars.length = input.length := Nat.succ.inj length
      have line : caller.line beyond kb = editLine caller.strSize [] chars := by
        rw [Caller.line, codes, typed, List.tail_cons]
      have gets := @Terminal.getString_run _ (Keyboard.getchar beyond) caller.strSize
        (kb.input.length + 1) caller.shown chars c ⟨kb, buffer, [], []⟩ last delivers
        (getchar_none ends) (by rw [codes, List.length_cons, short]; omega)
      rw [← line] at gets
      obtain ⟨more, small, writes⟩ := gets.writes
      refine ⟨fun i => ?_, more, small, writes.trans (List.append_nil _)⟩
      have looked := delivers_lookups gets.source i
      have whole : (c :: chars).length = kb.input.length := by
        rw [length, codes]
      rw [List.length_take, whole, ← List.take_eq_take_min, fresh] at looked
      rw [← codes]
      exact looked.trans (or_iff_right List.not_mem_nil)

/-- The scancodes that are taken for a line stay in the table, and the line leaves room for the
zero behind it, just when nothing beside the table and the buffer is touched. -/
theorem getString_inBounds_iff (caller : Caller) (fresh : kb.lookups = []) (buffer : Mem) :
    caller.InBounds (caller.getString beyond kb buffer).state ↔
      (∀ code ∈ kb.input.take ((caller.line beyond kb).taken + 1),
        scanIndex code < kkybrdScancodeStd.length) ∧
      ((caller.line beyond kb).text.length = caller.strSize → caller.strSize < caller.buffer) := by
  obtain ⟨lookups, more, small, writes⟩ := @getString_bounds beyond kb caller fresh buffer
  have fits : (caller.line beyond kb).text.length ≤ caller.strSize :=
    length_editLine_le _ (Nat.zero_le _)
  have room := strSize_le_buffer caller
  have inside : ∀ i ∈ more, i < caller.buffer := fun i member =>
    Nat.lt_of_lt_of_le (small i member) room
  constructor
  · rintro ⟨table, bounded⟩
    refine ⟨fun code taken => table _ ((lookups _).mpr ⟨code, taken, rfl⟩), fun full => ?_⟩
    have finished : (caller.line beyond kb).finished = true := editLine_full full
    rw [if_pos finished, full] at writes
    exact bounded _ (writes ▸ List.mem_cons_self)
  · rintro ⟨table, zero⟩
    constructor
    · intro i member
      obtain ⟨code, taken, rfl⟩ := (lookups i).mp member
      exact table code taken
    · intro i member
      rw [writes] at member
      by_cases finished : (caller.line beyond kb).finished = true
      · rw [if_pos finished] at member
        rcases List.mem_cons.mp member with rfl | before
        · rcases Nat.eq_or_lt_of_le fits with full | short
          · rw [full]
            exact zero full
          · exact Nat.lt_of_lt_of_le short room
        · exact inside i before
      · rw [if_neg finished] at member
        exact inside i member

/-- The keyboard as the controller hands over these scancodes. -/
def Keyboard.fresh (input : List UInt8) : Keyboard :=
  ⟨input, 0, false, false, [], []⟩

/-- The release of a shift key, of `a` and of the return key. -/
theorem getString_inBounds_iff_letter :
    Caller.getAuthdata.InBounds
      (Caller.getAuthdata.getString (fun _ => 0) (.fresh [0xAA, 0x9E, 0x9C]) fun _ => 0).state :=
  (getString_inBounds_iff .getAuthdata rfl fun _ => 0).mpr
    ⟨List.forall_iff_forall_mem.mp (by decide), by decide⟩

/-- A key with an extended code is looked up behind the table, and four characters fill the
buffer of `trusted_boot` up to a zero that is written behind it. -/
theorem getString_outOfBounds :
    (¬ ∀ i ∈ (Caller.postLaunch.getString (fun _ => 0)
          (.fresh [0xE0]) fun _ => 0).state.source.lookups,
        i < kkybrdScancodeStd.length) ∧
      ¬ ∀ i ∈ (Caller.trustedBoot.getString (fun _ => 0)
          (.fresh [0x9C, 0x95, 0x92, 0x9F, 0xB9, 0x9C]) fun _ => 0).state.writes,
        i < Caller.trustedBoot.buffer := by
  decide +kernel

end Bounds

end Sable
