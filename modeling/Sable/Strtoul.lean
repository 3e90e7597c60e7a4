import Sable.CommandLine
import Sable.Numerals
import Sable.Util

/-!
# Numbers in texts

`strtoul` of `cmdline.c` reads a numeral and stays at the largest number when the numeral does
not fit.  It reads back what `out_hex` prints.
-/

namespace Sable

open Numerals

section Model

def isdigit (c : UInt8) : Bool :=
  0x30 ≤ c && c ≤ 0x39

def isupper (c : UInt8) : Bool :=
  0x41 ≤ c && c ≤ 0x5A

def islower (c : UInt8) : Bool :=
  0x61 ≤ c && c ≤ 0x7A

def isalpha (c : UInt8) : Bool :=
  islower c || isupper c

/-- The digit of a character, which may be too large for the base. -/
def digitOf (c : UInt8) : Option UInt32 :=
  if isdigit c then some (c - 0x30).toUInt32
  else if isalpha c then some (c - if isupper c then 0x41 - 10 else 0x61 - 10).toUInt32
  else none

def ulongMax : UInt32 := 0xFFFFFFFF

/-- The loop of `strtoul`, from a pointer to the character `c`.  The result has `acc`, `any` and
the pointer to the last `c`. -/
def strtoulLoop (base : UInt32) : List UInt8 → UInt32 → Int → UInt32 × Int × List UInt8
  | [], acc, any => (acc, any, [])
  | c :: p, acc, any =>
      match digitOf c with
      | none => (acc, any, c :: p)
      | some digit =>
          if digit ≥ base then (acc, any, c :: p)
          else if any < 0 ∨ acc > ulongMax / base ∨
              acc = ulongMax / base ∧ digit > ulongMax % base then
            strtoulLoop base p acc (-1)
          else strtoulLoop base p (acc * base + digit) 1

/-- The number and the place behind it. -/
def strtoul (nptr : List UInt8) (base : UInt32) : UInt32 × List UInt8 :=
  let p := nptr.dropWhile isspace
  let neg := charOf p = 0x2D
  let p := if charOf p = 0x2D ∨ charOf p = 0x2B then p.tail else p
  let hex := (base = 0 ∨ base = 16) ∧ charOf p = 0x30 ∧
    (charOf p.tail = 0x78 ∨ charOf p.tail = 0x58)
  let p := if hex then p.tail.tail else p
  let base := if hex then 16 else base
  let base := if base = 0 then if charOf p = 0x30 then 8 else 10 else base
  let (acc, any, last) := strtoulLoop base p 0 0
  (if any < 0 then ulongMax else if neg then -acc else acc, if any ≠ 0 then last else nptr)

end Model

section Digits

variable {base acc : UInt32} {p : List UInt8} {any : Int} {c : UInt8} {digit : UInt32}

/-- A character is a digit of the base. -/
def inBase (base : UInt32) (c : UInt8) : Bool :=
  (digitOf c).any (· < base)

/-- The digits that a text begins with. -/
def digitsOf (base : UInt32) (p : List UInt8) : List Nat :=
  (p.takeWhile (inBase base)).map fun c => ((digitOf c).getD 0).toNat

theorem inBase_iff : inBase base c = true ↔ ∃ digit, digitOf c = some digit ∧ digit < base := by
  cases found : digitOf c <;> simp [inBase, found]

theorem strtoulLoop_stop (stop : ¬ inBase base c = true) :
    strtoulLoop base (c :: p) acc any = (acc, any, c :: p) := by
  rw [strtoulLoop]
  cases found : digitOf c with
  | none => rfl
  | some digit =>
      have large : ¬ digit < base := by simpa [inBase, found] using stop
      exact if_pos (UInt32.not_lt.mp large)

theorem strtoulLoop_digit (found : digitOf c = some digit) (small : digit < base) :
    strtoulLoop base (c :: p) acc any =
      if any < 0 ∨ ulongMax.toNat < acc.toNat * base.toNat + digit.toNat then
        strtoulLoop base p acc (-1)
      else strtoulLoop base p (acc * base + digit) 1 := by
  have split := @limit_lt_iff base.toNat acc.toNat ulongMax.toNat digit.toNat
    (UInt32.lt_iff_toNat_lt.mp small)
  have tests : (any < 0 ∨ acc > ulongMax / base ∨
      acc = ulongMax / base ∧ digit > ulongMax % base) ↔
        any < 0 ∨ ulongMax.toNat < acc.toNat * base.toNat + digit.toNat := by
    rw [split, gt_iff_lt, gt_iff_lt, UInt32.lt_iff_toNat_lt, UInt32.lt_iff_toNat_lt,
      ← UInt32.toNat_inj, UInt32.toNat_div, UInt32.toNat_mod]
  rw [strtoulLoop, found]
  dsimp only
  rw [if_neg (UInt32.not_le.mpr small)]
  simp only [tests]

theorem digitsOf_cons (found : digitOf c = some digit) (small : digit < base) :
    digitsOf base (c :: p) = digit.toNat :: digitsOf base p := by
  have inside : inBase base c = true := by simp [inBase, found, small]
  rw [digitsOf, List.takeWhile_cons_of_pos inside, List.map_cons, found]
  rfl

/-- The loop ends behind the digits. -/
theorem strtoulLoop_rest (base : UInt32) (p : List UInt8) (acc : UInt32) (any : Int) :
    (strtoulLoop base p acc any).2.2 = p.dropWhile (inBase base) := by
  induction p generalizing acc any with
  | nil => rfl
  | cons c p ih =>
      by_cases inside : inBase base c = true
      · obtain ⟨digit, found, small⟩ := inBase_iff.mp inside
        rw [strtoulLoop_digit found small, List.dropWhile_cons_of_pos inside]
        split
        · exact ih _ _
        · exact ih _ _
      · rw [strtoulLoop_stop inside, List.dropWhile_cons_of_neg inside]

/-- Once the numeral has become too large, it stays so. -/
theorem strtoulLoop_overflowed (base : UInt32) (p : List UInt8) (acc : UInt32) :
    (strtoulLoop base p acc (-1)).2.1 = -1 := by
  induction p generalizing acc with
  | nil => rfl
  | cons c p ih =>
      by_cases inside : inBase base c = true
      · obtain ⟨digit, found, small⟩ := inBase_iff.mp inside
        rw [strtoulLoop_digit found small, if_pos (.inl (by decide))]
        exact ih _
      · rw [strtoulLoop_stop inside]

theorem digitsOf_stop (stop : ¬ inBase base c = true) : digitsOf base (c :: p) = [] := by
  rw [digitsOf, List.takeWhile_cons_of_neg stop, List.map_nil]

theorem toNat_ulongMax : ulongMax.toNat = 2 ^ 32 - 1 :=
  rfl

/-- The sum does not wrap if the number fits. -/
theorem toNat_step (fits : acc.toNat * base.toNat + digit.toNat < 2 ^ 32) :
    (acc * base + digit).toNat = acc.toNat * base.toNat + digit.toNat := by
  rw [UInt32.toNat_add, UInt32.toNat_mul, Nat.mod_add_mod, Nat.mod_eq_of_lt fits]

/-- A numeral that fits is read as it is. -/
theorem strtoulLoop_fits (positive : 0 < base.toNat) (nonnegative : 0 ≤ any)
    (fits : valueFrom base.toNat acc.toNat (digitsOf base p) < 2 ^ 32) :
    (strtoulLoop base p acc any).1.toNat = valueFrom base.toNat acc.toNat (digitsOf base p) ∧
      (strtoulLoop base p acc any).2.1 = if digitsOf base p = [] then any else 1 := by
  induction p generalizing acc any with
  | nil => exact ⟨rfl, rfl⟩
  | cons c p ih =>
      by_cases inside : inBase base c = true
      · obtain ⟨digit, found, small⟩ := inBase_iff.mp inside
        rw [digitsOf_cons found small, valueFrom_cons] at fits ⊢
        have lower := @le_valueFrom base.toNat (acc.toNat * base.toNat + digit.toNat)
          (digitsOf base p) positive
        have room : ¬ (any < 0 ∨ ulongMax.toNat < acc.toNat * base.toNat + digit.toNat) := by
          rw [toNat_ulongMax]
          omega
        have step : (acc * base + digit).toNat = _ := toNat_step (by omega)
        rw [← step] at fits ⊢
        obtain ⟨number, any⟩ := ih (Int.le_of_lt Int.one_pos) fits
        rw [strtoulLoop_digit found small, if_neg room, if_neg (List.cons_ne_nil _ _)]
        exact ⟨number, any.trans (ite_self 1)⟩
      · rw [strtoulLoop_stop inside, digitsOf_stop inside]
        exact ⟨rfl, rfl⟩

/-- A numeral that does not fit is noticed. -/
theorem strtoulLoop_overflows
    (large : ¬ valueFrom base.toNat acc.toNat (digitsOf base p) < 2 ^ 32) :
    (strtoulLoop base p acc any).2.1 = -1 := by
  induction p generalizing acc any with
  | nil => exact (large acc.toNat_lt).elim
  | cons c p ih =>
      by_cases inside : inBase base c = true
      · obtain ⟨digit, found, small⟩ := inBase_iff.mp inside
        rw [digitsOf_cons found small, valueFrom_cons] at large
        rw [strtoulLoop_digit found small]
        by_cases full : any < 0 ∨ ulongMax.toNat < acc.toNat * base.toNat + digit.toNat
        · rw [if_pos full]
          exact strtoulLoop_overflowed base p acc
        · rw [toNat_ulongMax] at full
          have step : (acc * base + digit).toNat = _ := toNat_step (by omega)
          rw [← step] at large
          rw [if_neg (by rw [toNat_ulongMax]; exact full)]
          exact ih large
      · rw [digitsOf_stop inside] at large
        exact (large acc.toNat_lt).elim

end Digits

section Numerals

variable {nptr p rest : List UInt8} {base : UInt32}

/-- What stands in front of the digits, and the base that they are read in. -/
structure NumeralHead where
  neg : Bool
  base : UInt32
  digits : List UInt8

/-- A text behind its sign. -/
def behindSign (p : List UInt8) : List UInt8 :=
  if charOf p = 0x2D ∨ charOf p = 0x2B then p.tail else p

/-- The prefix of a hexadecimal numeral, where the base allows it. -/
def HexPrefix (base : UInt32) (p : List UInt8) : Prop :=
  (base = 0 ∨ base = 16) ∧ charOf p = 0x30 ∧ (charOf p.tail = 0x78 ∨ charOf p.tail = 0x58)

instance decidableHexPrefix (base : UInt32) (p : List UInt8) : Decidable (HexPrefix base p) :=
  inferInstanceAs (Decidable (_ ∧ _ ∧ _))

/-- The base of a numeral without a prefix. -/
def plainBase (base : UInt32) (p : List UInt8) : UInt32 :=
  if base = 0 then if charOf p = 0x30 then 8 else 10 else base

/-- The white space, the sign and the prefix of a text. -/
def numeralHead (nptr : List UInt8) (base : UInt32) : NumeralHead :=
  let p := nptr.dropWhile isspace
  let body := behindSign p
  if HexPrefix base body then ⟨charOf p = 0x2D, 16, body.tail.tail⟩
  else ⟨charOf p = 0x2D, plainBase base body, body⟩

/-- The value of the digits behind the head. -/
def NumeralHead.value (head : NumeralHead) : Nat :=
  Numerals.value head.base.toNat (digitsOf head.base head.digits)

theorem plainBase_pos (base : UInt32) (p : List UInt8) : 0 < (plainBase base p).toNat := by
  rw [plainBase]
  by_cases zero : base = 0
  · rw [if_pos zero]
    by_cases octal : charOf p = 0x30
    · rw [if_pos octal]
      decide
    · rw [if_neg octal]
      decide
  · rw [if_neg zero]
    exact Nat.pos_of_ne_zero fun none => zero (UInt32.toNat_inj.mp none)

theorem numeralHead_base (nptr : List UInt8) (base : UInt32) :
    0 < (numeralHead nptr base).base.toNat := by
  rw [numeralHead]
  by_cases hex : HexPrefix base (behindSign (nptr.dropWhile isspace))
  · rw [if_pos hex]
    exact Nat.zero_lt_succ 15
  · rw [if_neg hex]
    exact plainBase_pos _ _

/-- The end of `strtoul`. -/
def strtoulResult (neg : Bool) (nptr : List UInt8) (last : UInt32 × Int × List UInt8) :
    UInt32 × List UInt8 :=
  (if last.2.1 < 0 then ulongMax else if neg then -last.1 else last.1,
    if last.2.1 ≠ 0 then last.2.2 else nptr)

theorem strtoul_parts (nptr : List UInt8) (base : UInt32) :
    let p := nptr.dropWhile isspace
    let digits := if HexPrefix base (behindSign p) then (behindSign p).tail.tail else behindSign p
    strtoul nptr base = strtoulResult (charOf p = 0x2D) nptr
      (strtoulLoop (plainBase (if HexPrefix base (behindSign p) then 16 else base) digits)
        digits 0 0) := by
  simp only [strtoul, strtoulResult, decide_eq_true_eq]
  rfl

theorem strtoul_head (nptr : List UInt8) (base : UInt32) :
    strtoul nptr base = strtoulResult (numeralHead nptr base).neg nptr
      (strtoulLoop (numeralHead nptr base).base (numeralHead nptr base).digits 0 0) := by
  have parts := strtoul_parts nptr base
  dsimp only at parts
  rw [parts, numeralHead]
  by_cases hex : HexPrefix base (behindSign (nptr.dropWhile isspace))
  · rw [if_pos hex, if_pos hex, if_pos hex]
    rfl
  · rw [if_neg hex, if_neg hex, if_neg hex]

/-- The value of the digits, or the largest number if that does not fit; a minus sign turns a
number that fits into its complement. -/
def NumeralHead.number (head : NumeralHead) : UInt32 :=
  if 2 ^ 32 ≤ head.value then ulongMax
  else if head.neg then -UInt32.ofNat head.value else UInt32.ofNat head.value

/-- The place behind the digits, or the start of the text if there are none. -/
def NumeralHead.behind (head : NumeralHead) (nptr : List UInt8) : List UInt8 :=
  if digitsOf head.base head.digits = [] then nptr else head.digits.dropWhile (inBase head.base)

theorem strtoulResult_eq (head : NumeralHead) (positive : 0 < head.base.toNat)
    (nptr : List UInt8) :
    strtoulResult head.neg nptr (strtoulLoop head.base head.digits 0 0) =
      (head.number, head.behind nptr) := by
  rw [strtoulResult, strtoulLoop_rest, NumeralHead.number, NumeralHead.behind]
  by_cases fits : head.value < 2 ^ 32
  · obtain ⟨number, any⟩ := @strtoulLoop_fits head.base 0 head.digits 0 positive
      (Int.le_refl 0) fits
    have same : (strtoulLoop head.base head.digits 0 0).1 = UInt32.ofNat head.value := by
      rw [← UInt32.ofNat_toNat (x := (strtoulLoop head.base head.digits 0 0).1), number]
      rfl
    rw [any, same, if_neg (Nat.not_le.mpr fits)]
    by_cases none : digitsOf head.base head.digits = []
    · simp [none]
    · simp [none]
  · have any := @strtoulLoop_overflows head.base 0 head.digits 0 fits
    have some : digitsOf head.base head.digits ≠ [] := by
      intro none
      have zero : head.value = 0 := by rw [NumeralHead.value, none]; rfl
      omega
    rw [any, if_pos (Nat.not_lt.mp fits), if_neg some]
    rfl

theorem strtoul_eq (nptr : List UInt8) (base : UInt32) :
    strtoul nptr base =
      ((numeralHead nptr base).number, (numeralHead nptr base).behind nptr) := by
  rw [strtoul_head]
  exact strtoulResult_eq _ (numeralHead_base nptr base) nptr

end Numerals

section Spelled

variable {rest : List UInt8} {base : UInt32} {char : Nat → UInt8} {digits : List Nat}
  {digit : Nat}

/-- The characters stand for the digits of the base. -/
def SpellsDigits (base : UInt32) (char : Nat → UInt8) : Prop :=
  ∀ digit < base.toNat, digitOf (char digit) = some (UInt32.ofNat digit)

theorem toNat_digit (small : digit < base.toNat) : (UInt32.ofNat digit).toNat = digit :=
  UInt32.toNat_ofNat_of_lt' (Nat.lt_trans small base.toNat_lt)

theorem SpellsDigits.inBase (spells : SpellsDigits base char) (small : digit < base.toNat) :
    inBase base (char digit) = true := by
  apply inBase_iff.mpr
  refine ⟨_, spells digit small, ?_⟩
  rw [UInt32.lt_iff_toNat_lt, toNat_digit small]
  exact small

theorem takeWhile_rest (stop : Sable.inBase base (charOf rest) = false) :
    rest.takeWhile (Sable.inBase base) = [] ∧ rest.dropWhile (Sable.inBase base) = rest := by
  cases rest with
  | nil => exact ⟨rfl, rfl⟩
  | cons c rest =>
      have stop : ¬ Sable.inBase base c = true := ne_true_of_eq_false stop
      exact ⟨List.takeWhile_cons_of_neg stop, List.dropWhile_cons_of_neg stop⟩

/-- A numeral that is written out has the digits it was made of. -/
theorem SpellsDigits.digitsOf (spells : SpellsDigits base char)
    (below : ∀ digit ∈ digits, digit < base.toNat)
    (stop : Sable.inBase base (charOf rest) = false) :
    digitsOf base (digits.map char ++ rest) = digits ∧
      (digits.map char ++ rest).dropWhile (Sable.inBase base) = rest := by
  have all : ∀ c ∈ digits.map char, Sable.inBase base c = true := by
    intro c member
    obtain ⟨digit, inside, rfl⟩ := List.mem_map.mp member
    exact spells.inBase (below digit inside)
  refine ⟨?_, by rw [List.dropWhile_append_of_pos all, (takeWhile_rest stop).2]⟩
  rw [Sable.digitsOf, List.takeWhile_append_of_pos all, (takeWhile_rest stop).1, List.append_nil,
    List.map_map]
  calc
    digits.map ((fun c => ((digitOf c).getD 0).toNat) ∘ char) =
        digits.map fun digit => digit := by
      apply List.map_congr_left
      intro digit member
      rw [Function.comp_apply, spells digit (below digit member)]
      exact toNat_digit (below digit member)
    _ = digits := List.map_id' _

end Spelled

section Printed

variable {rest : List UInt8} {base : UInt32}

/-- The character that `out_hex` prints for a digit. -/
def hexChar (digit : Nat) : UInt8 :=
  UInt8.ofNat (if 10 ≤ digit then digit + 7 + 0x30 else digit + 0x30)

theorem spells_hexChar : SpellsDigits 16 hexChar := by
  change ∀ digit < 16, _
  decide

/-- The digits that `out_hex` prints, as numbers. -/
def hexNumbers (value : UInt32) (bitlen : Nat) : List Nat :=
  (List.range (Nat.log2 (value.toNat ||| 2 ^ bitlen) / 4 + 1)).reverse.map fun k =>
    value.toNat / 16 ^ k % 16

theorem hexDigits_eq (value : UInt32) (bitlen : Nat) :
    hexDigits value bitlen = (hexNumbers value bitlen).map hexChar := by
  rw [hexNumbers, List.map_map]
  rfl

/-- The printed digits are all the digits of the number. -/
theorem value_hexNumbers (value : UInt32) (bitlen : Nat) :
    Numerals.value 16 (hexNumbers value bitlen) = value.toNat := by
  have below : value.toNat < 16 ^ (Nat.log2 (value.toNat ||| 2 ^ bitlen) / 4 + 1) := by
    calc
      value.toNat ≤ value.toNat ||| 2 ^ bitlen := Nat.left_le_or
      _ < 2 ^ (Nat.log2 (value.toNat ||| 2 ^ bitlen) + 1) := Nat.lt_log2_self
      _ ≤ 2 ^ (4 * (Nat.log2 (value.toNat ||| 2 ^ bitlen) / 4 + 1)) :=
        Nat.pow_le_pow_right (by decide) (by omega)
      _ = 16 ^ (Nat.log2 (value.toNat ||| 2 ^ bitlen) / 4 + 1) := Nat.pow_mul 2 4 _
  have all := valueFrom_div 16 value.toNat (Nat.log2 (value.toNat ||| 2 ^ bitlen) / 4 + 1)
  rw [Nat.div_eq_of_lt below] at all
  exact all

/-- What `out_hex` prints behind `0x` is read back as the number. -/
theorem strtoul_hexDigits (value : UInt32) (bitlen : Nat) (either : base = 0 ∨ base = 16)
    (stop : inBase 16 (charOf rest) = false) :
    strtoul (0x30 :: 0x78 :: (hexDigits value bitlen ++ rest)) base = (value, rest) := by
  have head : numeralHead (0x30 :: 0x78 :: (hexDigits value bitlen ++ rest)) base =
      ⟨false, 16, hexDigits value bitlen ++ rest⟩ := by
    rcases either with rfl | rfl
    · rfl
    · rfl
  have below : ∀ digit ∈ hexNumbers value bitlen, digit < 16 := by
    intro digit member
    obtain ⟨k, -, rfl⟩ := List.mem_map.mp member
    exact Nat.mod_lt _ (by decide)
  obtain ⟨digits, behind⟩ := spells_hexChar.digitsOf below stop
  rw [← hexDigits_eq] at digits behind
  have number : (⟨false, 16, hexDigits value bitlen ++ rest⟩ : NumeralHead).value =
      value.toNat := by
    rw [NumeralHead.value, digits]
    exact value_hexNumbers value bitlen
  have some : hexNumbers value bitlen ≠ [] := by
    simp [hexNumbers]
  have fits := value.toNat_lt
  rw [strtoul_eq, head, NumeralHead.number, NumeralHead.behind, number, digits, behind,
    if_neg (by omega), if_neg some]
  simp

/-- The line that `out_description` ends with. -/
theorem strtoul_hexDigits_line :
    strtoul (0x30 :: 0x78 :: (hexDigits 0xBEEF 0 ++ [0x0A])) 0 = (0xBEEF, [0x0A]) :=
  strtoul_hexDigits 0xBEEF 0 (.inl rfl) (by decide)

end Printed

end Sable
