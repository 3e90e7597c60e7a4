import Sable.ByteMemory
import Mathlib.Data.List.Infix
import Mathlib.Data.List.TakeWhile
import Mathlib.Logic.Function.Basic

/-!
# Options on the command line

`cmdline_parse` of `cmdline.c`.  A pointer into the command line is the rest of the line from
there on, and `strncpy` is the one of the C standard.  The values are in an array of buffers.
-/

namespace Sable

open ByteMemory

section Model

/-- A string, without its terminating zero. -/
abbrev CString := {text : List UInt8 // ∀ c ∈ text, c ≠ 0}

structure CmdlineOption where
  name : CString
  defVal : CString

def maxValueLen : Nat := 64

/-- The arrays of `maxValueLen` characters. -/
abbrev ParamValues := Nat → Mem

/-- `*p` -/
def charOf (p : List UInt8) : UInt8 :=
  p.headD 0

def isspace (c : UInt8) : Bool :=
  9 ≤ c && c ≤ 13 || c == 32

def strchr : List UInt8 → UInt8 → Option (List UInt8)
  | [], ch => if ch = 0 then some [] else none
  | c :: p, ch => if c = ch then some (c :: p) else strchr p ch

def strcmp : List UInt8 → List UInt8 → Int
  | [], s2 => 0 - (charOf s2).toNat
  | c :: s1, s2 =>
      if c ≠ charOf s2 then c.toNat - (charOf s2).toNat
      else if c = 0 then 0
      else strcmp s1 s2.tail

def strncmp : List UInt8 → List UInt8 → Nat → Int
  | _, _, 0 => 0
  | s1, s2, n + 1 =>
      if charOf s1 ≠ charOf s2 then (charOf s1).toNat - (charOf s2).toNat
      else if charOf s1 = 0 then 0
      else strncmp s1.tail s2.tail n

/-- The `strncpy` of the C standard. -/
def standardStrncpy (dest : Mem) (src : List UInt8) (num : Nat) : Mem :=
  write dest 0 ((src ++ List.replicate num 0).take num)

/-- `strncpy(dest, src, size); dest[size] = '\0'` -/
def copyValue (dest : Mem) (src : List UInt8) (size : Nat) : Mem :=
  write (standardStrncpy dest src size) size [0]

def getOptionVal (vals : ParamValues) (optName : List UInt8) :
    List CmdlineOption → Nat → Option Mem
  | [], _ => none
  | option :: options, i =>
      if strcmp option.name optName = 0 then some (vals i)
      else getOptionVal vals optName options (i + 1)

/-- Copy the default values. -/
def copyDefaults (vals : ParamValues) : List CmdlineOption → Nat → ParamValues
  | [], _ => vals
  | option :: options, i =>
      copyDefaults (Function.update vals i (copyValue (vals i) option.defVal (maxValueLen - 1)))
        options (i + 1)

/-- The value goes to the first option whose name starts like the token. -/
def copyToOption (vals : ParamValues) (optStart valStart : List UInt8)
    (optNameSize copySize : Nat) : List CmdlineOption → Nat → ParamValues
  | [], _ => vals
  | option :: options, i =>
      if strncmp option.name optStart optNameSize = 0 then
        Function.update vals i (copyValue (vals i) valStart copySize)
      else copyToOption vals optStart valStart optNameSize copySize options (i + 1)

/-- One token, from the place where its value is looked for. -/
def parseOption (options : List CmdlineOption) (vals : ParamValues)
    (optStart optEnd : List UInt8) : ParamValues :=
  match strchr optStart 0x3D with
  | none => vals
  | some valStart =>
      if valStart.length < optEnd.length then vals
      else
        let valStart := valStart.tail
        let optNameSize := optStart.length - valStart.length - 1
        let copySize := valStart.length - optEnd.length
        let copySize := if copySize > maxValueLen - 1 then maxValueLen - 1 else copySize
        if optNameSize = 0 ∨ copySize = 0 then vals
        else copyToOption vals optStart valStart optNameSize copySize options 0

/-- The end of a token. -/
def optEnd (optStart : List UInt8) : List UInt8 :=
  (strchr optStart 0x20).getD []

end Model

section Characters

variable {s rest : List UInt8} {c ch : UInt8}

theorem strchr_eq (s : List UInt8) (char : ch ≠ 0) :
    strchr s ch = if ch ∈ s then some (s.dropWhile (· != ch)) else none := by
  induction s with
  | nil => rw [strchr, if_neg char, if_neg List.not_mem_nil]
  | cons c s ih =>
      rw [strchr]
      by_cases here : c = ch
      · have stays : (c != ch) = false := by simp [here]
        rw [if_pos here, if_pos (here ▸ List.mem_cons_self),
          List.dropWhile_cons, if_neg (by simp [stays])]
      · have passes : (c != ch) = true := by simp [here]
        rw [if_neg here, ih, List.dropWhile_cons, if_pos passes]
        have same : ch ∈ c :: s ↔ ch ∈ s := by
          rw [List.mem_cons]
          exact or_iff_right fun equal => here equal.symm
        by_cases later : ch ∈ s
        · rw [if_pos later, if_pos (same.mpr later)]
        · rw [if_neg later, if_neg (same.not.mpr later)]

theorem optEnd_eq (s : List UInt8) : optEnd s = s.dropWhile (· != 0x20) := by
  rw [optEnd, strchr_eq s (by decide)]
  by_cases space : (0x20 : UInt8) ∈ s
  · rw [if_pos space, Option.getD_some]
  · rw [if_neg space, Option.getD_none, eq_comm, List.dropWhile_eq_nil_iff]
    intro c member
    have other : c ≠ 0x20 := fun same => space (same ▸ member)
    simp [other]

theorem isspace_space : isspace 0x20 = true := by
  decide

theorem dropWhile_head (starts : s.dropWhile (· != ch) = c :: rest) : c = ch := by
  have first := List.head?_dropWhile_not (· != ch) s
  rw [starts, List.head?_cons] at first
  simpa using first

/-- No white space is left in front of a token. -/
theorem starts_other {p : List UInt8} (starts : p.dropWhile isspace = c :: rest) :
    isspace c = false := by
  have first := List.head?_dropWhile_not isspace p
  rw [starts, List.head?_cons] at first
  simpa using first

theorem ne_space (other : isspace c = false) : (c != 0x20) = true := by
  have char : c ≠ 0x20 := by
    rintro rfl
    rw [isspace_space] at other
    cases other
  simp [char]

/-- A token has at least one character. -/
theorem length_optEnd_lt {p : List UInt8} (starts : p.dropWhile isspace = c :: rest) :
    (optEnd (c :: rest)).length < p.length := by
  have differs := ne_space (starts_other starts)
  have shorter := (List.dropWhile_suffix isspace (l := p)).length_le
  have ends := (List.dropWhile_suffix (· != 0x20) (l := rest)).length_le
  rw [starts, List.length_cons] at shorter
  rw [optEnd_eq, List.dropWhile_cons, if_pos differs]
  omega

end Characters

section Loop

/-- The loop over the tokens. -/
def parseOptions (options : List CmdlineOption) (vals : ParamValues) (p : List UInt8) :
    ParamValues :=
  match _starts : p.dropWhile isspace with
  | [] => vals
  | c :: rest =>
      parseOptions options (parseOption options vals (c :: rest) (optEnd (c :: rest)))
        (optEnd (c :: rest))
termination_by p.length
decreasing_by exact length_optEnd_lt _starts

def cmdlineParse (cmdline : Option CString) (options : List CmdlineOption)
    (vals : ParamValues) : ParamValues :=
  let vals := copyDefaults vals options 0
  match cmdline with
  | none => vals
  | some p => parseOptions options vals p

end Loop

section Tokens

/-- The tokens of a line: what stands between the spaces, without white space in front. -/
def tokens (line : List UInt8) : List (List UInt8) :=
  ((line.splitOn 0x20).map (List.dropWhile isspace)).filter (· ≠ [])

def nameOf (token : List UInt8) : List UInt8 :=
  token.takeWhile (· != 0x3D)

/-- What stands behind the first `=`. -/
def valueOf (token : List UInt8) : List UInt8 :=
  (token.dropWhile (· != 0x3D)).tail

variable {c : UInt8} {p rest : List UInt8}

/-- White space in front of a line does not matter. -/
theorem tokens_cons (space : isspace c = true) (p : List UInt8) : tokens (c :: p) = tokens p := by
  rw [tokens, tokens, List.splitOn_cons_eq_if_modifyHead]
  by_cases blank : (c == 0x20) = true
  · rw [if_pos blank, List.map_cons, List.filter_cons_of_neg (by simp)]
  · rw [if_neg blank]
    cases parts : p.splitOn 0x20 with
    | nil => exact absurd parts (List.splitOn_ne_nil 0x20 p)
    | cons part parts =>
        rw [List.modifyHead_cons, List.map_cons, List.map_cons, List.dropWhile_cons, if_pos space]

theorem tokens_dropWhile (p : List UInt8) : tokens (p.dropWhile isspace) = tokens p := by
  induction p with
  | nil => rfl
  | cons c p ih =>
      by_cases space : isspace c = true
      · rw [List.dropWhile_cons, if_pos space, ih, tokens_cons space]
      · rw [List.dropWhile_cons, if_neg space]

/-- The first token of a line and the rest. -/
theorem tokens_first (starts : p.dropWhile isspace = c :: rest) :
    tokens p = (c :: rest).takeWhile (· != 0x20) :: tokens (optEnd (c :: rest)) := by
  have differs := ne_space (starts_other starts)
  have stays : ((c :: rest).takeWhile (· != 0x20)).dropWhile isspace =
      (c :: rest).takeWhile (· != 0x20) := by
    rw [List.takeWhile_cons, if_pos differs, List.dropWhile_cons,
      if_neg (by simp [starts_other starts])]
  have nonempty : (c :: rest).takeWhile (· != 0x20) ≠ [] := by
    rw [List.takeWhile_cons, if_pos differs]
    exact List.cons_ne_nil _ _
  have free : (0x20 : UInt8) ∉ (c :: rest).takeWhile (· != 0x20) := fun member => by
    have char := List.mem_takeWhile_imp member
    cases char
  rw [← tokens_dropWhile p, starts, optEnd_eq, tokens, tokens]
  have split := List.takeWhile_append_dropWhile (p := (· != (0x20 : UInt8))) (l := c :: rest)
  cases ends : (c :: rest).dropWhile (· != 0x20) with
  | nil =>
      rw [ends, List.append_nil] at split
      have whole := List.splitOn_eq_singleton free
      rw [split] at whole stays
      rw [whole, split, List.map_cons, stays, List.filter_cons_of_pos (by simp)]
      rfl
  | cons space behind =>
      obtain rfl := dropWhile_head ends
      have parts := List.splitOn_append_cons_self_of_not_mem free behind
      rw [← ends, split] at parts
      rw [parts, List.map_cons, stays, List.filter_cons_of_pos (by simpa using nonempty)]
      exact congrArg _ (tokens_cons isspace_space behind).symm

/-- A token gives its value to the first option whose name starts with its name. -/
def applyToken (options : List CmdlineOption) (vals : ParamValues) (token : List UInt8) :
    ParamValues :=
  if nameOf token = [] ∨ valueOf token = [] then vals
  else
    match options.findIdx? fun option => nameOf token <+: option.name.val with
    | none => vals
    | some i => Function.update vals i
        (copyValue (vals i) (valueOf token) (min (valueOf token).length (maxValueLen - 1)))

end Tokens

section OneToken

variable {options : List CmdlineOption} {vals : ParamValues} {optStart valStart : List UInt8}
  {n copySize : Nat}

theorem toNat_sub_ne_zero {a b : UInt8} (differ : a ≠ b) : (a.toNat : Int) - b.toNat ≠ 0 := by
  intro zero
  exact differ (UInt8.toNat_inj.mp (by omega))

/-- Comparing over the length of a name asks whether it is a prefix. -/
theorem strncmp_eq_zero_iff (name : List UInt8) (text : ∀ c ∈ optStart, c ≠ 0)
    (inside : n ≤ optStart.length) : strncmp name optStart n = 0 ↔ optStart.take n <+: name := by
  induction n generalizing name optStart with
  | zero => simp [strncmp]
  | succ n ih =>
      obtain ⟨c, rest, rfl⟩ : ∃ c rest, optStart = c :: rest := by
        cases optStart with
        | nil => cases inside
        | cons c rest => exact ⟨c, rest, rfl⟩
      obtain ⟨nonzero, later⟩ := List.forall_mem_cons.mp text
      rw [strncmp, List.take_succ_cons, List.tail_cons, charOf, charOf, List.headD_cons]
      cases name with
      | nil =>
          have differ : ([] : List UInt8).headD 0 ≠ c := fun same => nonzero same.symm
          rw [if_pos differ, List.prefix_nil]
          exact iff_of_false (toNat_sub_ne_zero differ) (List.cons_ne_nil _ _)
      | cons a name =>
          rw [List.headD_cons, List.tail_cons, List.cons_prefix_cons]
          by_cases same : a = c
          · have goes : a ≠ 0 := same ▸ nonzero
            rw [if_neg (not_not_intro same), if_neg goes,
              ih name later (Nat.le_of_succ_le_succ inside)]
            exact (and_iff_right same.symm).symm
          · rw [if_pos same]
            exact iff_of_false (toNat_sub_ne_zero same) fun both => same both.1.symm

theorem copyToOption_eq (text : ∀ c ∈ optStart, c ≠ 0) (inside : n ≤ optStart.length)
    (options : List CmdlineOption) (k : Nat) :
    copyToOption vals optStart valStart n copySize options k =
      match options.findIdx? fun option => optStart.take n <+: option.name.val with
      | none => vals
      | some i => Function.update vals (k + i) (copyValue (vals (k + i)) valStart copySize) := by
  induction options generalizing k with
  | nil => rfl
  | cons option options ih =>
      have compares := strncmp_eq_zero_iff option.name.val text inside
      rw [copyToOption, List.findIdx?_cons]
      by_cases hit : optStart.take n <+: option.name.val
      · rw [if_pos (compares.mpr hit), if_pos (decide_eq_true hit)]
        rfl
      · rw [if_neg (compares.not.mpr hit), if_neg (by simpa using hit), ih]
        cases options.findIdx? fun option => optStart.take n <+: option.name.val with
        | none => rfl
        | some i =>
            have place : k + 1 + i = k + (i + 1) := by omega
            dsimp only [Option.map_some]
            rw [place]

/-- Only the characters that are copied matter. -/
theorem copyValue_append {value : List UInt8} (dest : Mem) (behind : List UInt8) {size : Nat}
    (short : size ≤ value.length) : copyValue dest (value ++ behind) size =
      copyValue dest value size := by
  have same : (value ++ behind ++ List.replicate size 0).take size =
      (value ++ List.replicate size (0 : UInt8)).take size := by
    rw [List.append_assoc, List.take_append_of_le_length short,
      List.take_append_of_le_length short]
  rw [copyValue, copyValue, standardStrncpy, standardStrncpy, same]

theorem name_append_value {token : List UInt8} (named : (0x3D : UInt8) ∈ token) :
    nameOf token ++ 0x3D :: valueOf token = token := by
  have split := List.takeWhile_append_dropWhile (p := (· != (0x3D : UInt8))) (l := token)
  cases ends : token.dropWhile (· != 0x3D) with
  | nil =>
      have none := List.dropWhile_eq_nil_iff.mp ends 0x3D named
      cases none
  | cons c value =>
      obtain rfl := dropWhile_head ends
      rw [nameOf, valueOf, ends, List.tail_cons, ← ends, split]

theorem valueOf_eq_nil {token : List UInt8} (unnamed : (0x3D : UInt8) ∉ token) :
    valueOf token = [] := by
  have nothing : token.dropWhile (· != 0x3D) = [] := by
    rw [List.dropWhile_eq_nil_iff]
    intro c member
    have other : c ≠ 0x3D := fun same => unnamed (same ▸ member)
    simp [other]
  rw [valueOf, nothing, List.tail_nil]

/-- In a token with a sign the value is what stands behind it. -/
theorem parseOption_named (text : ∀ c ∈ optStart, c ≠ 0) {token behind : List UInt8}
    (splits : optStart = token ++ behind) (named : (0x3D : UInt8) ∈ token) :
    parseOption options vals optStart behind = applyToken options vals token := by
  have parts := name_append_value named
  have free : (0x3D : UInt8) ∉ nameOf token := fun member => by
    have char := List.mem_takeWhile_imp member
    cases char
  have start : optStart = nameOf token ++ 0x3D :: (valueOf token ++ behind) := by
    rw [splits, ← List.cons_append, ← List.append_assoc, parts]
  have found : strchr optStart 0x3D = some (0x3D :: (valueOf token ++ behind)) := by
    have member : (0x3D : UInt8) ∈ optStart := splits ▸ List.mem_append_left behind named
    have skips : ∀ c ∈ nameOf token, (c != 0x3D) = true := fun c within =>
      List.mem_takeWhile_imp (p := (· != 0x3D)) within
    rw [strchr_eq optStart (by decide), if_pos member, start,
      List.dropWhile_append_of_pos skips, List.dropWhile_cons, if_neg (by decide)]
  have room : ¬ (0x3D :: (valueOf token ++ behind)).length < behind.length := by
    rw [List.length_cons, List.length_append]
    omega
  have nameSize : optStart.length - (valueOf token ++ behind).length - 1 =
      (nameOf token).length := by
    rw [start, List.length_append, List.length_cons]
    omega
  have size : (valueOf token ++ behind).length - behind.length = (valueOf token).length := by
    rw [List.length_append]
    omega
  have name : optStart.take (nameOf token).length = nameOf token := by
    rw [start, List.take_left' rfl]
  have inside : (nameOf token).length ≤ optStart.length := by
    rw [start, List.length_append]
    omega
  have cut : (if (valueOf token).length > maxValueLen - 1 then maxValueLen - 1
      else (valueOf token).length) = min (valueOf token).length (maxValueLen - 1) := by
    split <;> omega
  have empty : ((nameOf token).length = 0 ∨ min (valueOf token).length (maxValueLen - 1) = 0) ↔
      (nameOf token = [] ∨ valueOf token = []) := by
    have some : 0 < maxValueLen - 1 := by decide
    rw [← List.length_eq_zero_iff, ← List.length_eq_zero_iff (l := valueOf token)]
    omega
  rw [parseOption, found]
  dsimp only
  rw [if_neg room, List.tail_cons, nameSize, size, cut, applyToken]
  by_cases nothing : nameOf token = [] ∨ valueOf token = []
  · rw [if_pos (empty.mpr nothing), if_pos nothing]
  · rw [if_neg (empty.not.mpr nothing), if_neg nothing, copyToOption_eq text inside, name]
    cases options.findIdx? fun option => nameOf token <+: option.name.val with
    | none => rfl
    | some i =>
        dsimp only
        rw [Nat.zero_add, copyValue_append _ _ (Nat.min_le_left _ _)]

/-- A token without a sign changes nothing, whatever follows in the line. -/
theorem parseOption_unnamed {token behind : List UInt8} (splits : optStart = token ++ behind)
    (ends : ∀ c rest, behind = c :: rest → c ≠ 0x3D) (unnamed : (0x3D : UInt8) ∉ token) :
    parseOption options vals optStart behind = applyToken options vals token := by
  rw [applyToken, if_pos (.inr (valueOf_eq_nil unnamed)), parseOption,
    strchr_eq optStart (by decide)]
  by_cases later : (0x3D : UInt8) ∈ optStart
  · have skips : ∀ c ∈ token, (c != 0x3D) = true := by
      intro c within
      have other : c ≠ 0x3D := fun same => unnamed (same ▸ within)
      simp [other]
    cases behind with
    | nil =>
        rw [splits, List.append_nil] at later
        exact absurd later unnamed
    | cons c rest =>
        have other : (c != 0x3D) = true := by simp [ends c rest rfl]
        have shorter := (List.dropWhile_suffix (· != 0x3D) (l := rest)).length_le
        rw [if_pos later, splits, List.dropWhile_append_of_pos skips, List.dropWhile_cons,
          if_pos other]
        dsimp only
        rw [if_pos (by rw [List.length_cons]; omega)]
  · rw [if_neg later]

/-- One token is dealt with. -/
theorem parseOption_eq (text : ∀ c ∈ optStart, c ≠ 0) :
    parseOption options vals optStart (optEnd optStart) =
      applyToken options vals (optStart.takeWhile (· != 0x20)) := by
  have splits : optStart = optStart.takeWhile (· != 0x20) ++ optEnd optStart := by
    rw [optEnd_eq, List.takeWhile_append_dropWhile]
  by_cases named : (0x3D : UInt8) ∈ optStart.takeWhile (· != 0x20)
  · exact parseOption_named text splits named
  · refine parseOption_unnamed splits (fun c rest starts => ?_) named
    rw [optEnd_eq] at starts
    rw [dropWhile_head starts]
    decide

/-- The loop deals with the tokens of the line, one after the other. -/
theorem parseOptions_eq (options : List CmdlineOption) (vals : ParamValues) {p : List UInt8}
    (text : ∀ c ∈ p, c ≠ 0) :
    parseOptions options vals p = (tokens p).foldl (applyToken options) vals := by
  induction size : p.length using Nat.strong_induction_on generalizing p vals with
  | _ size ih =>
      rw [parseOptions]
      split
      · rename_i starts
        rw [← tokens_dropWhile, starts]
        rfl
      · rename_i c rest starts
        have part : ∀ d ∈ c :: rest, d ≠ 0 := fun d member =>
          text d ((List.dropWhile_suffix isspace).subset (starts ▸ member))
        have left : ∀ d ∈ optEnd (c :: rest), d ≠ 0 := fun d member => by
          rw [optEnd_eq] at member
          exact part d ((List.dropWhile_suffix _).subset member)
        have shorter := length_optEnd_lt starts
        rw [ih _ (size ▸ shorter) _ left rfl, parseOption_eq part, tokens_first starts,
          List.foldl_cons]

end OneToken

section Values

variable {options : List CmdlineOption} {vals : ParamValues} {src : List UInt8} {size i : Nat}

/-- The string in a buffer of `maxValueLen` characters. -/
def stringIn (buf : Mem) : List UInt8 :=
  (read buf 0 maxValueLen).takeWhile (· != 0)

theorem stringIn_copyValue (dest : Mem) (text : ∀ c ∈ src, c ≠ 0) (short : size < maxValueLen) :
    stringIn (copyValue dest src size) = src.take size := by
  have length : ((src ++ List.replicate size 0).take size).length = size := by
    rw [List.length_take, List.length_append, List.length_replicate]
    omega
  have copied : copyValue dest src size =
      write dest 0 ((src ++ List.replicate size 0).take size ++ [0]) := by
    have joined := write_write_append dest 0 ((src ++ List.replicate size 0).take size) [0]
    rwa [length, Nat.zero_add] at joined
  obtain ⟨rest, room⟩ := Nat.exists_eq_add_of_le (Nat.succ_le_of_lt short)
  have kept : ∀ c ∈ src.take size, (c != 0) = true := by
    intro c member
    have nonzero := text c (List.mem_of_mem_take member)
    simp [nonzero]
  have zeros : (src ++ List.replicate size 0).take size ++ [0] =
      src.take size ++ 0 :: List.replicate (size - src.length) 0 := by
    rw [List.take_append, List.take_replicate, Nat.min_eq_left (Nat.sub_le _ _),
      List.append_assoc, ← List.replicate_succ', List.replicate_succ]
  have whole : ((src ++ List.replicate size 0).take size ++ [(0 : UInt8)]).length = size + 1 := by
    rw [List.length_append, length, List.length_singleton]
  have stored := read_write_self dest 0 ((src ++ List.replicate size 0).take size ++ [0])
  rw [whole] at stored
  rw [stringIn, copied, room, read_add, stored, zeros, List.append_assoc,
    List.takeWhile_append_of_pos kept, List.cons_append, List.takeWhile_cons, if_neg (by decide),
    List.append_nil]

theorem copyDefaults_before (options : List CmdlineOption) (vals : ParamValues) {k : Nat}
    (before : i < k) : copyDefaults vals options k i = vals i := by
  induction options generalizing vals k with
  | nil => rfl
  | cons option options ih =>
      rw [copyDefaults, ih _ (Nat.lt_succ_of_lt before),
        Function.update_of_ne (Nat.ne_of_lt before)]

/-- Every option gets its default value. -/
theorem copyDefaults_at (vals : ParamValues) (k : Nat) (inside : i < options.length) :
    copyDefaults vals options k (k + i) =
      copyValue (vals (k + i)) options[i].defVal (maxValueLen - 1) := by
  induction options generalizing vals k i with
  | nil => cases inside
  | cons option options ih =>
      rw [copyDefaults]
      cases i with
      | zero =>
          rw [Nat.add_zero k, copyDefaults_before options _ (Nat.lt_add_one k),
            Function.update_self]
          rfl
      | succ i =>
          have place : k + (i + 1) = k + 1 + i := by omega
          have later := ih (Function.update vals k (copyValue (vals k) option.defVal
            (maxValueLen - 1))) (k + 1) (Nat.lt_of_succ_lt_succ inside)
          rw [place, later, Function.update_of_ne (by omega)]
          rfl

theorem strcmp_eq_zero_iff (name : List UInt8) (text : ∀ c ∈ name, c ≠ 0) (other : List UInt8)
    (otherText : ∀ c ∈ other, c ≠ 0) : strcmp name other = 0 ↔ name = other := by
  induction name generalizing other with
  | nil =>
      cases other with
      | nil => exact iff_of_true rfl rfl
      | cons c other =>
          have differ : (0 : UInt8) ≠ c := (List.forall_mem_cons.mp otherText).1.symm
          exact iff_of_false (toNat_sub_ne_zero differ) (List.cons_ne_nil _ _).symm
  | cons c name ih =>
      obtain ⟨nonzero, later⟩ := List.forall_mem_cons.mp text
      rw [strcmp]
      cases other with
      | nil =>
          have differ : c ≠ charOf [] := nonzero
          rw [if_pos differ]
          exact iff_of_false (toNat_sub_ne_zero differ) (List.cons_ne_nil _ _)
      | cons d other =>
          rw [charOf, List.headD_cons, List.tail_cons, List.cons_eq_cons]
          by_cases same : c = d
          · rw [if_neg (not_not_intro same), if_neg nonzero,
              ih later other (List.forall_mem_cons.mp otherText).2]
            exact (and_iff_right same).symm
          · rw [if_pos same]
            exact iff_of_false (toNat_sub_ne_zero same) fun both => same both.1

/-- The value of an option is looked up by its name. -/
theorem getOptionVal_at (vals : ParamValues) (k : Nat)
    (distinct : (options.map CmdlineOption.name).Nodup) (inside : i < options.length) :
    getOptionVal vals options[i].name options k = some (vals (k + i)) := by
  induction options generalizing k i with
  | nil => cases inside
  | cons option options ih =>
      rw [List.map_cons, List.nodup_cons] at distinct
      have compares := strcmp_eq_zero_iff option.name.val option.name.property
      rw [getOptionVal]
      cases i with
      | zero =>
          rw [List.getElem_cons_zero, if_pos ((compares _ option.name.property).mpr rfl)]
          rfl
      | succ i =>
          have within := Nat.lt_of_succ_lt_succ inside
          rw [List.getElem_cons_succ]
          have other : option.name.val ≠ options[i].name.val := by
            intro same
            refine distinct.1 ?_
            rw [Subtype.ext same]
            exact List.mem_map_of_mem (List.getElem_mem within)
          rw [if_neg ((compares _ options[i].name.property).not.mpr other), ih _ distinct.2 within]
          congr 2
          omega

end Values

section Given

variable {options : List CmdlineOption} {vals : ParamValues} {i : Nat}

/-- The value of the last token with a value and such a name. -/
def given (hit : List UInt8 → Bool) (line : List UInt8) : Option (List UInt8) :=
  ((tokens line).filter fun token =>
    hit (nameOf token) && valueOf token != []).getLast?.map valueOf

/-- The first option whose name starts with the name is the one at this place. -/
def reaches (options : List CmdlineOption) (i : Nat) (name : List UInt8) : Bool :=
  name != [] && (options.findIdx? fun option => name <+: option.name.val) == some i

theorem applyToken_value {token : List UInt8} (text : ∀ c ∈ token, c ≠ 0) :
    stringIn (applyToken options vals token i) =
      if reaches options i (nameOf token) && valueOf token != [] then
        (valueOf token).take (maxValueLen - 1)
      else stringIn (vals i) := by
  have valueText : ∀ c ∈ valueOf token, c ≠ 0 := fun c member =>
    text c ((List.dropWhile_suffix _).subset (List.mem_of_mem_tail member))
  have short : min (valueOf token).length (maxValueLen - 1) < maxValueLen :=
    Nat.lt_of_le_of_lt (Nat.min_le_right _ _) (by decide)
  rw [applyToken, reaches]
  by_cases nothing : nameOf token = [] ∨ valueOf token = []
  · rw [if_pos nothing, if_neg]
    rcases nothing with none | none
    · simp [none]
    · simp [none]
  · obtain ⟨named, valued⟩ := not_or.mp nothing
    rw [if_neg nothing]
    cases found : options.findIdx? fun option => nameOf token <+: option.name.val with
    | none => simp
    | some j =>
        dsimp only
        by_cases here : j = i
        · have stored := stringIn_copyValue (vals i) valueText short
          rw [here, Function.update_self, stored, if_pos (by simp [named, valued]), Nat.min_comm,
            ← List.take_eq_take_min]
        · rw [Function.update_of_ne (Ne.symm here), if_neg (by simp [here])]

/-- The last token that reaches an option gives it its value. -/
theorem foldl_value {parts : List (List UInt8)} (text : ∀ token ∈ parts, ∀ c ∈ token, c ≠ 0) :
    stringIn (parts.foldl (applyToken options) vals i) =
      match ((parts.filter fun token =>
        reaches options i (nameOf token) && valueOf token != []).getLast?.map valueOf) with
      | none => stringIn (vals i)
      | some value => value.take (maxValueLen - 1) := by
  induction parts using List.reverseRecOn with
  | nil => rfl
  | append_singleton parts token ih =>
      obtain ⟨before, last⟩ := List.forall_mem_append.mp text
      rw [List.foldl_append, List.foldl_cons, List.foldl_nil, List.filter_append,
        applyToken_value (last token List.mem_cons_self)]
      by_cases hit : (reaches options i (nameOf token) && valueOf token != []) = true
      · rw [if_pos hit, List.filter_cons, if_pos hit, List.filter_nil, List.getLast?_concat]
        rfl
      · rw [if_neg hit, List.filter_cons, if_neg hit, List.filter_nil, List.append_nil, ih before]

theorem tokens_text {p : List UInt8} (text : ∀ c ∈ p, c ≠ 0) :
    ∀ token ∈ tokens p, ∀ c ∈ token, c ≠ 0 := by
  induction size : p.length using Nat.strong_induction_on generalizing p with
  | _ size ih =>
      cases starts : p.dropWhile isspace with
      | nil =>
          rw [← tokens_dropWhile, starts]
          simp [tokens]
      | cons c rest =>
          have part : ∀ d ∈ c :: rest, d ≠ 0 := fun d member =>
            text d ((List.dropWhile_suffix isspace).subset (starts ▸ member))
          have shorter := length_optEnd_lt starts
          rw [tokens_first starts]
          refine List.forall_mem_cons.mpr ⟨fun d member => ?_, ih _ (size ▸ shorter) ?_ rfl⟩
          · exact part d ((List.takeWhile_prefix _).subset member)
          · intro d member
            rw [optEnd_eq] at member
            exact part d ((List.dropWhile_suffix _).subset member)

/-- What the value of an option should be: that of the last token with its name. -/
def expected (option : CmdlineOption) (line : List UInt8) : List UInt8 :=
  match given (· == option.name.val) line with
  | none => option.defVal
  | some value => value.take (maxValueLen - 1)

/-- What becomes of the value of an option. -/
theorem cmdlineParse_value (cmdline : Option CString) (options : List CmdlineOption)
    (vals : ParamValues) (inside : i < options.length) :
    stringIn (cmdlineParse cmdline options vals i) =
      match given (reaches options i) (cmdline.elim [] Subtype.val) with
      | none => options[i].defVal.val.take (maxValueLen - 1)
      | some value => value.take (maxValueLen - 1) := by
  have defaults : stringIn (copyDefaults vals options 0 i) =
      options[i].defVal.val.take (maxValueLen - 1) := by
    have copied := copyDefaults_at vals 0 inside
    rw [Nat.zero_add] at copied
    rw [copied, stringIn_copyValue _ options[i].defVal.property (by decide)]
  cases cmdline with
  | none => exact defaults
  | some p =>
      rw [cmdlineParse, parseOptions_eq options _ p.property,
        foldl_value (tokens_text p.property), defaults]
      rfl

/-- The tokens that reach an option and the tokens with its name give it the same value. -/
def SameValue (options : List CmdlineOption) (option : CmdlineOption) (i : Nat)
    (line : List UInt8) : Prop :=
  match given (reaches options i) line, given (· == option.name.val) line with
  | some value, some named => value.take (maxValueLen - 1) = named.take (maxValueLen - 1)
  | some value, none => value.take (maxValueLen - 1) = option.defVal
  | none, some named => option.defVal.val.take (maxValueLen - 1) = named.take (maxValueLen - 1)
  | none, none => option.defVal.val.length ≤ maxValueLen - 1

/-- Every option has the expected value just when the last token that starts its name, and no
earlier one, agrees with the last token with exactly its name. -/
theorem cmdlineParse_iff (cmdline : Option CString) (options : List CmdlineOption)
    (vals : ParamValues) (distinct : (options.map CmdlineOption.name).Nodup) :
    (∀ i (inside : i < options.length),
        (getOptionVal (cmdlineParse cmdline options vals) options[i].name options 0).map stringIn =
          some (expected options[i] (cmdline.elim [] Subtype.val))) ↔
      ∀ i (inside : i < options.length),
        SameValue options options[i] i (cmdline.elim [] Subtype.val) := by
  refine forall_congr' fun i => forall_congr' fun inside => ?_
  rw [getOptionVal_at _ 0 distinct inside, Nat.zero_add, Option.map_some,
    cmdlineParse_value cmdline options vals inside, Option.some_inj, expected, SameValue]
  cases given (reaches options i) (cmdline.elim [] Subtype.val) with
  | none =>
      cases given (· == options[i].name.val) (cmdline.elim [] Subtype.val) with
      | none => exact List.take_eq_self_iff _
      | some named => exact Iff.rfl
  | some value =>
      cases given (· == options[i].name.val) (cmdline.elim [] Subtype.val) with
      | none => exact Iff.rfl
      | some named => exact Iff.rfl

/-- `g_linux_cmdline_options` -/
def linuxCmdlineOptions : List CmdlineOption :=
  [⟨⟨[0x76, 0x67, 0x61], by simp⟩, ⟨[], by simp⟩⟩,
    ⟨⟨[0x6D, 0x65, 0x6D], by simp⟩, ⟨[], by simp⟩⟩]

/-- The line `vga=1`. -/
theorem cmdlineParse_iff_vga :
    (∀ i (inside : i < linuxCmdlineOptions.length),
        (getOptionVal (cmdlineParse (some ⟨[0x76, 0x67, 0x61, 0x3D, 0x31], by simp⟩)
          linuxCmdlineOptions fun _ _ => 0) linuxCmdlineOptions[i].name linuxCmdlineOptions
            0).map stringIn =
          some (expected linuxCmdlineOptions[i] [0x76, 0x67, 0x61, 0x3D, 0x31])) ↔
      ∀ i (inside : i < linuxCmdlineOptions.length),
        SameValue linuxCmdlineOptions linuxCmdlineOptions[i] i [0x76, 0x67, 0x61, 0x3D, 0x31] :=
  cmdlineParse_iff (some ⟨[0x76, 0x67, 0x61, 0x3D, 0x31], by simp⟩) linuxCmdlineOptions
    (fun _ _ => 0) (by decide)

/-- The line `v=1` sets the value of `vga`, although no token has this name. -/
theorem cmdlineParse_prefix :
    (getOptionVal (cmdlineParse (some ⟨[0x76, 0x3D, 0x31], by simp⟩) linuxCmdlineOptions
        fun _ _ => 0) [0x76, 0x67, 0x61] linuxCmdlineOptions 0).map stringIn ≠
      some (expected linuxCmdlineOptions[0] [0x76, 0x3D, 0x31]) := by
  have looked := @getOptionVal_at linuxCmdlineOptions 0 (cmdlineParse
    (some ⟨[0x76, 0x3D, 0x31], by simp⟩) linuxCmdlineOptions fun _ _ => 0) 0 (by decide)
    (by decide)
  have value := @cmdlineParse_value 0 (some ⟨[0x76, 0x3D, 0x31], by simp⟩) linuxCmdlineOptions
    (fun _ _ => 0) (by decide)
  rw [show ([0x76, 0x67, 0x61] : List UInt8) = linuxCmdlineOptions[0].name from rfl, looked,
    Option.map_some, Nat.add_zero, value]
  decide +kernel

end Given

end Sable
