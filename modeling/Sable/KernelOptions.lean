import Sable.Linux
import Sable.Strtoul

/-!
# The options of the kernel

`get_linux_vga` and `get_linux_mem` read what `linux_parse_cmdline` has found.  The number of
`mem=` limits the memory even where `get_linux_mem` fails, since its result is not looked at.
-/

namespace Sable

open ByteMemory Numerals

section Model

variable (vals : ParamValues)

/-- The texts of options and of their values. -/
def vgaName : List UInt8 := [0x76, 0x67, 0x61]
def memName : List UInt8 := [0x6D, 0x65, 0x6D]
def normalVga : List UInt8 := [0x6E, 0x6F, 0x72, 0x6D, 0x61, 0x6C]
def extVga : List UInt8 := [0x65, 0x78, 0x74]
def askVga : List UInt8 := [0x61, 0x73, 0x6B]

/-- Whether there is a mode, and the mode. -/
def getLinuxVga (vidMode : UInt32) : Bool × UInt32 :=
  match getOptionVal vals vgaName linuxCmdlineOptions 0 with
  | none => (false, vidMode)
  | some buf =>
      let vga := stringIn buf
      if strcmp vga normalVga = 0 then (true, 0xFFFF)
      else if strcmp vga extVga = 0 then (true, 0xFFFE)
      else if strcmp vga askVga = 0 then (true, 0xFFFD)
      else (true, (strtoul vga 0).1)

/-- Whether there is a number with a unit, and the limit. -/
def getLinuxMem (maxMem : UInt64) : Bool × UInt64 :=
  match getOptionVal vals memName linuxCmdlineOptions 0 with
  | none => (false, maxMem)
  | some buf =>
      let (number, last) := strtoul (stringIn buf) 0
      let maxMem := number.toUInt64
      if maxMem = 0 then (false, maxMem)
      else if charOf last = 0x47 ∨ charOf last = 0x67 then (true, maxMem <<< 30)
      else if charOf last = 0x4D ∨ charOf last = 0x6D then (true, maxMem <<< 20)
      else if charOf last = 0x4B ∨ charOf last = 0x6B then (true, maxMem <<< 10)
      else (false, maxMem)

/-- The options that `expand_linux_image` uses. -/
def linuxOptions (cmdline : Option CString) (vidMode : UInt32) (maxMem : UInt64) : LinuxOptions :=
  let vals := cmdlineParse cmdline linuxCmdlineOptions vals
  ⟨(getLinuxVga vals vidMode).2.toUInt16, (getLinuxMem vals maxMem).2⟩

end Model

section Limit

/-- How far a unit shifts a number. -/
def unitShift (c : UInt8) : Nat :=
  if c = 0x47 ∨ c = 0x67 then 30
  else if c = 0x4D ∨ c = 0x6D then 20
  else if c = 0x4B ∨ c = 0x6B then 10
  else 0

theorem toNat_shifted (number : UInt32) (shift : Nat) (small : shift ≤ 32) :
    (number.toUInt64 <<< UInt64.ofNat shift).toNat = number.toNat * 2 ^ shift := by
  have place : (UInt64.ofNat shift).toNat = shift :=
    UInt64.toNat_ofNat_of_lt' (by simp only [UInt64.size]; omega)
  have room : number.toNat * 2 ^ shift < 2 ^ 64 := by
    calc
      number.toNat * 2 ^ shift < 2 ^ 32 * 2 ^ shift :=
        Nat.mul_lt_mul_of_pos_right number.toNat_lt (Nat.two_pow_pos shift)
      _ = 2 ^ (32 + shift) := (Nat.pow_add 2 32 shift).symm
      _ ≤ 2 ^ 64 := Nat.pow_le_pow_right (by decide) (by omega)
  rw [UInt64.toNat_shiftLeft, place, Nat.mod_eq_of_lt (by omega : shift < 64),
    UInt32.toNat_toUInt64, Nat.shiftLeft_eq, Nat.mod_eq_of_lt room]

/-- The limit is exact, since a number of 32 bits does not leave 64 bits when it is shifted. -/
theorem getLinuxMem_shift (vals : ParamValues) (maxMem : UInt64) :
    (getLinuxMem vals maxMem).2.toNat =
      (strtoul (stringIn (vals 1)) 0).1.toNat *
        2 ^ unitShift (charOf (strtoul (stringIn (vals 1)) 0).2) := by
  have found : getOptionVal vals memName linuxCmdlineOptions 0 = some (vals 1) := rfl
  rw [getLinuxMem, found]
  dsimp only
  set number := (strtoul (stringIn (vals 1)) 0).1
  set c := charOf (strtoul (stringIn (vals 1)) 0).2
  by_cases zero : number.toUInt64 = 0
  · have none : number.toNat = 0 := by
      rw [← UInt32.toNat_toUInt64, zero]
      rfl
    rw [if_pos zero, none, Nat.zero_mul, zero]
    rfl
  rw [if_neg zero, unitShift]
  by_cases giga : c = 0x47 ∨ c = 0x67
  · rw [if_pos giga, if_pos giga]
    exact toNat_shifted number 30 (by decide)
  rw [if_neg giga, if_neg giga]
  by_cases mega : c = 0x4D ∨ c = 0x6D
  · rw [if_pos mega, if_pos mega]
    exact toNat_shifted number 20 (by decide)
  rw [if_neg mega, if_neg mega]
  by_cases kilo : c = 0x4B ∨ c = 0x6B
  · rw [if_pos kilo, if_pos kilo]
    exact toNat_shifted number 10 (by decide)
  rw [if_neg kilo, if_neg kilo, Nat.pow_zero, Nat.mul_one]
  exact UInt32.toNat_toUInt64 number

end Limit

section Decimal

variable {rest : List UInt8} {digits : List Nat} {digit : Nat}

/-- The character of a decimal digit. -/
def decChar (digit : Nat) : UInt8 :=
  UInt8.ofNat (digit + 0x30)

theorem spells_decChar : SpellsDigits 10 decChar := by
  change ∀ digit < 10, _
  decide

theorem decChar_plain : ∀ digit < 10, isspace (decChar digit) = false ∧
    decChar digit ≠ 0x2D ∧ decChar digit ≠ 0x2B ∧ (digit ≠ 0 → decChar digit ≠ 0x30) := by
  decide

/-- A numeral that does not begin with a zero is a decimal one. -/
theorem numeralHead_decimal (small : digit < 10) (some : digit ≠ 0) (p : List UInt8) :
    numeralHead (decChar digit :: p) 0 = ⟨false, 10, decChar digit :: p⟩ := by
  obtain ⟨space, minus, plus, zero⟩ := decChar_plain digit small
  have signless : behindSign (decChar digit :: p) = decChar digit :: p :=
    if_neg (not_or.mpr ⟨minus, plus⟩)
  have prefixless : ¬ HexPrefix 0 (decChar digit :: p) := fun hex => zero some hex.2.1
  have plain : plainBase 0 (decChar digit :: p) = 10 := by
    rw [plainBase, if_pos rfl]
    exact if_neg (zero some)
  rw [numeralHead, List.dropWhile_cons_of_neg (ne_true_of_eq_false space), signless,
    if_neg prefixless, plain]
  congr 1
  exact decide_eq_false minus

/-- A decimal numeral is read up to its end, and stays at the largest number. -/
theorem strtoul_decimal (decimal : ∀ d ∈ digit :: digits, d < 10) (some : digit ≠ 0)
    (stop : inBase 10 (charOf rest) = false) :
    (strtoul ((digit :: digits).map decChar ++ rest) 0).1.toNat =
        min (Numerals.value 10 (digit :: digits)) (2 ^ 32 - 1) ∧
      (strtoul ((digit :: digits).map decChar ++ rest) 0).2 = rest := by
  have head : numeralHead ((digit :: digits).map decChar ++ rest) 0 =
      ⟨false, 10, (digit :: digits).map decChar ++ rest⟩ :=
    numeralHead_decimal (decimal digit List.mem_cons_self) some _
  obtain ⟨same, behind⟩ := spells_decChar.digitsOf decimal stop
  have number : (⟨false, 10, (digit :: digits).map decChar ++ rest⟩ : NumeralHead).value =
      Numerals.value 10 (digit :: digits) := by
    rw [NumeralHead.value, same]
    rfl
  rw [strtoul_eq, head, NumeralHead.behind, same, if_neg (List.cons_ne_nil _ _), behind,
    NumeralHead.number, number]
  refine ⟨?_, rfl⟩
  by_cases large : 2 ^ 32 ≤ Numerals.value 10 (digit :: digits)
  · rw [if_pos large, toNat_ulongMax]
    omega
  · rw [if_neg large, if_neg Bool.false_ne_true,
      UInt32.toNat_ofNat_of_lt' (by simp only [UInt32.size]; omega)]
    omega

theorem toNat_memLimit {mem : UInt64} (positive : 0 < mem.toNat) :
    (memLimit mem).toNat = min mem.toNat (2 ^ 32) := by
  have limit : fourGigabytes.toNat = 2 ^ 32 := rfl
  have some : mem ≠ 0 := by
    rintro rfl
    exact absurd positive (Nat.lt_irrefl 0)
  rw [memLimit]
  by_cases large : mem > fourGigabytes
  · rw [if_pos (.inl large), limit]
    have order := UInt64.lt_iff_toNat_lt.mp large
    omega
  · rw [if_neg (not_or.mpr ⟨large, some⟩)]
    have order := UInt64.le_iff_toNat_le.mp (UInt64.not_lt.mp large)
    omega

/-- The limit of the last `mem=` on the command line, in bytes or with a unit, is what limits the
place of the initrd, up to four gigabytes. -/
theorem memLimit_linuxOptions {line : CString} (vals : ParamValues) (vidMode : UInt32)
    (maxMem : UInt64) (decimal : ∀ d ∈ digit :: digits, d < 10) (some : digit ≠ 0)
    (stop : inBase 10 (charOf rest) = false) (short : (digit :: digits).length < 63)
    (last : given (reaches linuxCmdlineOptions 1) line =
      Option.some ((digit :: digits).map decChar ++ rest)) :
    (memLimit (linuxOptions vals (Option.some line) vidMode maxMem).mem).toNat =
      min (min (Numerals.value 10 (digit :: digits)) (2 ^ 32 - 1) *
        2 ^ unitShift (charOf rest)) (2 ^ 32) := by
  have value := @cmdlineParse_value 1 (Option.some line) linuxCmdlineOptions vals (by decide)
  rw [Option.elim_some, last] at value
  dsimp only at value
  have length : ((digit :: digits).map decChar).length = (digit :: digits).length :=
    List.length_map _
  have room : maxValueLen - 1 - (digit :: digits).length = 62 - (digit :: digits).length + 1 := by
    rw [maxValueLen]
    omega
  rw [List.take_append, List.take_of_length_le (by rw [length, maxValueLen]; omega), length,
    room] at value
  have head : charOf (rest.take (62 - (digit :: digits).length + 1)) = charOf rest := by
    cases rest <;> rfl
  obtain ⟨number, behind⟩ := strtoul_decimal decimal some (by rw [head]; exact stop)
  have limit := getLinuxMem_shift (cmdlineParse (Option.some line) linuxCmdlineOptions vals) maxMem
  rw [value, number, behind, head] at limit
  have lower : 1 ≤ Numerals.value 10 (digit :: digits) := by
    have first := @le_valueFrom 10 (0 * 10 + digit) digits (by decide)
    change _ ≤ Numerals.value 10 (digit :: digits) at first
    omega
  have positive : 0 < min (Numerals.value 10 (digit :: digits)) (2 ^ 32 - 1) *
      2 ^ unitShift (charOf rest) := Nat.mul_pos (by omega) (Nat.two_pow_pos _)
  rw [← limit] at positive
  rw [linuxOptions, toNat_memLimit positive, limit]

/-- The command line `mem=2G`. -/
theorem memLimit_linuxOptions_giga :
    (memLimit (linuxOptions (fun _ _ => 0) (Option.some
      ⟨[0x6D, 0x65, 0x6D, 0x3D, 0x32, 0x47], by simp⟩) 0 0).mem).toNat =
        min (min (Numerals.value 10 [2]) (2 ^ 32 - 1) * 2 ^ unitShift (charOf [0x47])) (2 ^ 32) :=
  memLimit_linuxOptions _ _ _ (by decide) (by decide) (by decide) (by decide) (by decide +kernel)

end Decimal

end Sable
