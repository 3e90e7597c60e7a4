import Sable.ByteMemory
import Sable.Exceptions
import Sable.HaltingPrograms
import Mathlib.Computability.Language
import Mathlib.Data.List.Infix
import Mathlib.Data.Nat.Find

/-!
# Searching the command line

`indexOf` and `cmdlineArgVal` of `util.c`.  The search and the comparison share the position in
the string, so the search goes on behind the characters that matched.  The state is the record
of the places of the string that are read.
-/

namespace Sable

open ByteMemory HaltingProgram
open scoped Computability

section Model

/-- `str[i]`, with the read on record. -/
def charAt (str : Mem) (i : Nat) : Prog Halt (List Nat) UInt8 := fun reads =>
  .ok (str i) (i :: reads)

/-- The inner loop from round `j` on.  It finds the pattern, or leaves the position where it
stopped.  The number of rounds is bounded. -/
def indexOfFor (sub str : Mem) (index : Nat) : Nat → Nat → Nat → Prog Halt (List Nat) (Nat ⊕ Nat)
  | 0, _, _ => Prog.halt .spin
  | fuel + 1, j, i => do
      let c ← charAt str i
      if c ≠ 0 then
        let c ← charAt str i
        if sub j = c ∧ sub (j + 1) = 0 then return .inl index
        else
          let c ← charAt str i
          if sub j ≠ c then return .inr i
          else indexOfFor sub str index fuel (j + 1) (i + 1)
      else return .inr i

/-- The outer loop from the position `i` on. -/
def indexOfWhile (sub str : Mem) : Nat → Nat → Prog Halt (List Nat) Int
  | 0, _ => Prog.halt .spin
  | fuel + 1, i => do
      let c ← charAt str i
      if c ≠ 0 then
        match ← indexOfFor sub str i (fuel + 1) 0 i with
        | .inl index => return index
        | .inr i => indexOfWhile sub str fuel (i + 1)
      else return -1

def indexOf (sub str : Mem) (fuel : Nat) : Prog Halt (List Nat) Int :=
  indexOfWhile sub str fuel 0

def strLen (str : Mem) : Nat → Nat → Prog Halt (List Nat) Nat
  | 0, _ => Prog.halt .spin
  | fuel + 1, len => if str len ≠ 0 then strLen str fuel (len + 1) else return len

/-- The place of the value in the command line. -/
def cmdlineArgVal (cmdline cmdlineArg : Mem) (fuel : Nat) : Prog Halt (List Nat) Int := do
  let index ← indexOf cmdlineArg cmdline fuel
  if index = -1 then Prog.halt .exit
  else
    let len ← strLen cmdlineArg fuel 0
    return index + len

end Model

section Strings

/-- A string with its terminating zero. -/
structure Spells (str : Mem) (text : List UInt8) : Prop where
  chars : ∀ i (inside : i < text.length), str i = text[i]
  zero : str text.length = 0
  nonzero : ∀ c ∈ text, c ≠ 0

/-- The number of characters that match. -/
def matching : List UInt8 → List UInt8 → Nat
  | a :: as, b :: bs => if a = b then matching as bs + 1 else 0
  | _, _ => 0

/-- The first place at which the pattern occurs. -/
structure FirstAt (pattern text : List UInt8) (i : Nat) : Prop where
  occurs : pattern <+: text.drop i
  first : ∀ k < i, ¬ pattern <+: text.drop k

/-- The places at which a comparison starts: behind one that fails, the characters that matched
and the one that did not are left out. -/
inductive Scanned (pattern text : List UInt8) : Nat → Prop
  | start : Scanned pattern text 0
  | next {p : Nat} (scanned : Scanned pattern text p) (inside : p < text.length)
      (other : ¬ pattern <+: text.drop p) :
      Scanned pattern text (p + matching pattern (text.drop p) + 1)

/-- The words on which a comparison with the pattern fails: some characters in front that match,
and then one that does not. -/
def misses (pattern : List UInt8) : Language UInt8 :=
  {word | ∃ (i : Nat) (inside : i < pattern.length) (c : UInt8),
    c ≠ pattern[i] ∧ word = pattern.take i ++ [c]}

/-- What is expected of `indexOf`: the first place of the pattern or -1, and no read behind the
terminating zero. -/
def FindsFirst (pattern text : List UInt8) (outcome : Outcome Halt (List Nat) Int) : Prop :=
  ∃ index reads, outcome = .ok index reads ∧ (∀ i ∈ reads, i ≤ text.length) ∧
    ((∃ i : Nat, index = i ∧ FirstAt pattern text i) ∨
      (index = -1 ∧ ∀ i, ¬ pattern <+: text.drop i))

variable {str : Mem} {text pattern : List UInt8}

theorem Spells.ne_zero (spells : Spells str text) {i : Nat} (inside : i < text.length) :
    str i ≠ 0 := by
  rw [spells.chars i inside]
  exact spells.nonzero _ (List.getElem_mem inside)

theorem Spells.eq_zero_iff (spells : Spells str text) {i : Nat} (inside : i ≤ text.length) :
    str i = 0 ↔ i = text.length := by
  constructor
  · intro zero
    by_contra short
    exact spells.ne_zero (by omega) zero
  · rintro rfl
    exact spells.zero

/-- A pattern with characters does not occur at the end. -/
theorem occurs_lt {i : Nat} (some : pattern ≠ []) (occurs : pattern <+: text.drop i) :
    i < text.length := by
  have room := occurs.length_le
  have positive := List.length_pos_of_ne_nil some
  rw [List.length_drop] at room
  omega

/-- A comparison that fails inside of the string. -/
theorem miss_of_matching (other : ¬ pattern <+: text)
    (inside : matching pattern text < text.length) :
    text.take (matching pattern text + 1) ∈ misses pattern := by
  induction pattern generalizing text with
  | nil => exact absurd List.nil_prefix other
  | cons a as ih =>
      cases text with
      | nil => exact absurd inside (Nat.not_lt_zero _)
      | cons b bs =>
          by_cases same : a = b
          · subst same
            rw [matching, if_pos rfl, List.length_cons] at inside
            have fails : ¬ as <+: bs := fun here => other (List.cons_prefix_cons.mpr ⟨rfl, here⟩)
            obtain ⟨i, short, c, differs, word⟩ := ih fails (Nat.lt_of_succ_lt_succ inside)
            refine ⟨i + 1, Nat.succ_lt_succ short, c, differs, ?_⟩
            rw [matching, if_pos rfl, List.take_succ_cons, word]
            rfl
          · rw [matching, if_neg same]
            exact ⟨0, Nat.zero_lt_succ _, b, fun equal => same equal.symm, rfl⟩

/-- Where a word of `misses` stands, the comparison fails at its last character. -/
theorem matching_of_miss {word rest : List UInt8} (miss : word ∈ misses pattern) :
    matching pattern (word ++ rest) + 1 = word.length ∧ ¬ pattern <+: word ++ rest := by
  obtain ⟨i, inside, c, differs, rfl⟩ := miss
  induction pattern generalizing i with
  | nil => exact absurd inside (Nat.not_lt_zero _)
  | cons a as ih =>
      cases i with
      | zero =>
          have other : ¬ a = c := fun same => differs same.symm
          simp [matching, other]
      | succ i =>
          obtain ⟨length, fails⟩ := ih i (Nat.lt_of_succ_lt_succ inside) differs
          rw [List.take_succ_cons, List.cons_append, List.cons_append, matching, if_pos rfl, length,
            List.length_cons]
          exact ⟨rfl, fun here => fails (List.cons_prefix_cons.mp here).2⟩

theorem Scanned.misses_kstar {i : Nat} (scanned : Scanned pattern text i)
    (inside : i ≤ text.length) : text.take i ∈ (misses pattern)∗ := by
  induction scanned with
  | start => exact Language.nil_mem_kstar _
  | @next p _ before other ih =>
      have word := miss_of_matching other (by rw [List.length_drop]; omega)
      have split : text.take (p + matching pattern (text.drop p) + 1) =
          text.take p ++ (text.drop p).take (matching pattern (text.drop p) + 1) := by
        rw [Nat.add_assoc, List.take_add]
      have single : misses pattern ≤ (misses pattern)∗ := le_kstar
      rw [split, ← kstar_mul_kstar]
      exact Language.append_mem_mul (ih (by omega)) (single word)

theorem Scanned.flatten {words : List (List UInt8)} {p : Nat} (scanned : Scanned pattern text p)
    (all : ∀ word ∈ words, word ∈ misses pattern) (here : words.flatten <+: text.drop p) :
    Scanned pattern text (p + words.flatten.length) := by
  induction words generalizing p with
  | nil => exact scanned
  | cons word words ih =>
      obtain ⟨rest, same⟩ := here
      rw [List.flatten_cons, List.append_assoc] at same
      obtain ⟨length, fails⟩ := @matching_of_miss pattern word (words.flatten ++ rest)
        (all word List.mem_cons_self)
      rw [same] at length fails
      have room := congrArg List.length same
      rw [List.length_append, List.length_drop] at room
      have next := scanned.next (by omega) fails
      rw [Nat.add_assoc, length] at next
      have later := ih next (fun word member => all word (List.mem_cons_of_mem _ member))
        ⟨rest, by rw [← List.drop_drop, ← same, List.drop_left' rfl]⟩
      rwa [List.flatten_cons, List.length_append, ← Nat.add_assoc]

/-- A comparison starts at a place exactly if the text in front of it is made of words on which
the comparison fails. -/
theorem scanned_iff {i : Nat} (inside : i ≤ text.length) :
    Scanned pattern text i ↔ text.take i ∈ (misses pattern)∗ := by
  constructor
  · exact fun scanned => scanned.misses_kstar inside
  · intro divided
    obtain ⟨words, whole, all⟩ := Language.mem_kstar.mp divided
    have length := congrArg List.length whole
    rw [List.length_take, Nat.min_eq_left inside] at length
    have scanned := Scanned.start.flatten all (by rw [← whole]; exact List.take_prefix i text)
    rwa [← length, Nat.zero_add] at scanned

end Strings

section Search

variable {sub str : Mem} {pattern text : List UInt8}

/-- The inner loop finds the pattern, or stops behind the characters that match. -/
theorem indexOfFor_run (spellsSub : Spells sub pattern) (spells : Spells str text) {fuel i j : Nat}
    (index : Nat) (left : j < pattern.length) (inside : i ≤ text.length)
    (enough : text.length < fuel + i) (reads : List Nat) :
    ∃ found more, indexOfFor sub str index fuel j i reads = .ok found (more ++ reads) ∧
      (∀ k ∈ more, k ≤ text.length) ∧
      (pattern.drop j <+: text.drop i → found = .inl index) ∧
      (¬ pattern.drop j <+: text.drop i →
        found = .inr (i + matching (pattern.drop j) (text.drop i))) := by
  induction fuel generalizing i j reads with
  | zero => omega
  | succ fuel ih =>
      have fewer : pattern.drop j = pattern[j] :: pattern.drop (j + 1) :=
        List.drop_eq_getElem_cons left
      rw [fewer, indexOfFor, Prog.bind_ok (rfl : charAt str i reads = _)]
      rcases Nat.eq_or_lt_of_le inside with ended | within
      · have nothing : text.drop i = [] := by
          rw [ended, List.drop_length]
        have zero : str i = 0 := ended ▸ spells.zero
        rw [if_neg (not_not_intro zero), nothing]
        exact ⟨_, [i], rfl, by simp [inside],
          fun occurs => absurd (List.prefix_nil.mp occurs) (List.cons_ne_nil _ _), fun _ => rfl⟩
      · have rest : text.drop i = text[i] :: text.drop (i + 1) := List.drop_eq_getElem_cons within
        have char : sub j = pattern[j] := spellsSub.chars j left
        have here : str i = text[i] := spells.chars i within
        have ends : sub (j + 1) = 0 ↔ j + 1 = pattern.length := spellsSub.eq_zero_iff left
        rw [if_pos (spells.ne_zero within), Prog.bind_ok (rfl : charAt str i _ = _), rest,
          List.cons_prefix_cons, matching, char, here]
        by_cases same : pattern[j] = text[i]
        · by_cases last : j + 1 = pattern.length
          · have whole : pattern.drop (j + 1) <+: text.drop (i + 1) := by
              rw [last, List.drop_length]
              exact List.nil_prefix
            rw [if_pos ⟨same, ends.mpr last⟩]
            exact ⟨_, [i, i], rfl, by simp [inside], fun _ => rfl,
              fun other => absurd ⟨same, whole⟩ other⟩
          · obtain ⟨found, more, run, bounded, finds, stops⟩ :=
              @ih (i + 1) (j + 1) (by omega) within (by omega) (i :: i :: i :: reads)
            rw [if_neg fun both => last (ends.mp both.2),
              Prog.bind_ok (rfl : charAt str i _ = _), here,
              if_neg (not_not_intro same), run, if_pos same]
            refine ⟨found, more ++ [i, i, i], ?_, ?_, fun both => finds both.2, fun other => ?_⟩
            · rw [List.append_assoc]
              rfl
            · exact List.forall_mem_append.mpr ⟨bounded, by simp [inside]⟩
            · rw [stops fun whole => other ⟨same, whole⟩]
              congr 1
              omega
        · rw [if_neg fun both => same both.1, Prog.bind_ok (rfl : charAt str i _ = _), here,
            if_pos same, if_neg same]
          exact ⟨_, [i, i, i], rfl, by simp [inside], fun both => absurd both.1 same, fun _ => rfl⟩

/-- One round of the outer loop. -/
theorem indexOfWhile_round (spellsSub : Spells sub pattern) (spells : Spells str text)
    {fuel i : Nat} (some : pattern ≠ []) (within : i < text.length)
    (enough : text.length < fuel + 1 + i) (reads : List Nat) :
    ∃ more, (∀ k ∈ more, k ≤ text.length) ∧
      (pattern <+: text.drop i →
        indexOfWhile sub str (fuel + 1) i reads = .ok (i : Int) (more ++ reads)) ∧
      (¬ pattern <+: text.drop i → indexOfWhile sub str (fuel + 1) i reads =
        indexOfWhile sub str fuel (i + matching pattern (text.drop i) + 1) (more ++ reads)) := by
  obtain ⟨found, more, run, bounded, finds, stops⟩ := @indexOfFor_run sub str pattern text spellsSub
    spells (fuel + 1) i 0 i (List.length_pos_of_ne_nil some) (Nat.le_of_lt within) enough
    (i :: reads)
  rw [List.drop_zero] at finds stops
  rw [indexOfWhile, Prog.bind_ok (rfl : charAt str i reads = _), if_pos (spells.ne_zero within),
    Prog.bind_ok run]
  have joined : more ++ i :: reads = (more ++ [i]) ++ reads := by
    rw [List.append_assoc]
    rfl
  rw [joined]
  refine ⟨more ++ [i], ?_, fun occurs => ?_, fun other => ?_⟩
  · exact List.forall_mem_append.mpr ⟨bounded, by simp [Nat.le_of_lt within]⟩
  · rw [finds occurs]
    rfl
  · rw [stops other]

theorem indexOfWhile_end (spells : Spells str text) (fuel : Nat) (reads : List Nat) :
    indexOfWhile sub str (fuel + 1) text.length reads = .ok (-1) (text.length :: reads) := by
  rw [indexOfWhile, Prog.bind_ok (rfl : charAt str text.length reads = _),
    if_neg (not_not_intro spells.zero)]
  rfl

/-- The search comes to every place at which a comparison starts. -/
theorem indexOfWhile_scanned (spellsSub : Spells sub pattern) (spells : Spells str text)
    {fuel p : Nat} (some : pattern ≠ []) (scanned : Scanned pattern text p)
    (enough : text.length < fuel) (reads : List Nat) :
    ∃ less more, fuel ≤ less + p ∧ (∀ k ∈ more, k ≤ text.length) ∧
      indexOfWhile sub str fuel 0 reads = indexOfWhile sub str less p (more ++ reads) := by
  induction scanned with
  | start => exact ⟨fuel, [], Nat.le_refl _, by simp, rfl⟩
  | next scanned inside other ih =>
      rename_i p
      obtain ⟨less, more, left, bounded, run⟩ := ih
      obtain ⟨less, rfl⟩ : ∃ fewer, less = fewer + 1 := ⟨less - 1, by omega⟩
      obtain ⟨later, laterBounded, -, goes⟩ := @indexOfWhile_round sub str pattern text spellsSub
        spells less p some inside (by omega) (more ++ reads)
      refine ⟨less, later ++ more, by omega, ?_, ?_⟩
      · exact List.forall_mem_append.mpr ⟨laterBounded, bounded⟩
      · rw [run, goes other, List.append_assoc]

end Search

section Progress

variable {sub str : Mem} {fuel i : Nat} {reads after : List Nat}

/-- The inner loop never goes back, and every read stays on record. -/
theorem indexOfFor_goes {index j : Nat} {found : Nat ⊕ Nat}
    (run : indexOfFor sub str index fuel j i reads = .ok found after) :
    (found = .inl index ∨ ∃ stopped, found = .inr stopped ∧ i ≤ stopped) ∧ reads ⊆ after := by
  induction fuel generalizing i j reads with
  | zero => cases run
  | succ fuel ih =>
      rw [indexOfFor, Prog.bind_ok (rfl : charAt str i reads = _)] at run
      split at run
      · rw [Prog.bind_ok (rfl : charAt str i _ = _)] at run
        split at run
        · cases run
          exact ⟨.inl rfl, by simp⟩
        · rw [Prog.bind_ok (rfl : charAt str i _ = _)] at run
          split at run
          · cases run
            exact ⟨.inr ⟨i, rfl, Nat.le_refl i⟩, fun k member => by simp [member]⟩
          · obtain ⟨result, kept⟩ := ih run
            refine ⟨result.imp_right fun ⟨stopped, same, later⟩ => ⟨stopped, same, by omega⟩, ?_⟩
            exact fun k member => kept (List.mem_cons_of_mem i (List.mem_cons_of_mem i
              (List.mem_cons_of_mem i member)))
      · cases run
        exact ⟨.inr ⟨i, rfl, Nat.le_refl i⟩, by simp⟩

/-- What the outer loop finds is no earlier than the place it starts from, which it reads. -/
theorem indexOfWhile_goes {found : Int}
    (run : indexOfWhile sub str fuel i reads = .ok found after) :
    (found = -1 ∨ (i : Int) ≤ found) ∧ i :: reads ⊆ after := by
  induction fuel generalizing i reads with
  | zero => cases run
  | succ fuel ih =>
      rw [indexOfWhile, Prog.bind_ok (rfl : charAt str i reads = _)] at run
      split at run
      · cases inner : indexOfFor sub str i (fuel + 1) 0 i (i :: reads) with
        | halt reason stopped =>
            rw [Prog.bind_halt inner] at run
            cases run
        | ok result between =>
            obtain ⟨ends, kept⟩ := indexOfFor_goes inner
            rw [Prog.bind_ok inner] at run
            rcases ends with rfl | ⟨stopped, rfl, later⟩
            · cases run
              exact ⟨.inr (Int.le_refl _), kept⟩
            · obtain ⟨bound, more⟩ := ih run
              refine ⟨bound.imp_right fun le => by omega, fun k member => ?_⟩
              exact more (List.mem_cons_of_mem _ (kept member))
      · cases run
        exact ⟨.inl rfl, fun k member => member⟩

end Progress

section Results

variable {sub str : Mem} {pattern text : List UInt8} {fuel i : Nat}

/-- A search that comes to a place finds the pattern there, or nothing at the end. -/
theorem indexOf_scanned (spellsSub : Spells sub pattern) (spells : Spells str text)
    (some : pattern ≠ []) (enough : text.length < fuel)
    (occurs : FirstAt pattern text i → Scanned pattern text i)
    (absent : (∀ k, ¬ pattern <+: text.drop k) → Scanned pattern text text.length)
    (place : FirstAt pattern text i ∨ ∀ k, ¬ pattern <+: text.drop k) :
    FindsFirst pattern text (indexOf sub str fuel []) := by
  rcases place with first | none
  · have within := occurs_lt some first.occurs
    obtain ⟨less, more, left, bounded, run⟩ := indexOfWhile_scanned spellsSub spells some
      (occurs first) enough []
    obtain ⟨less, rfl⟩ : ∃ fewer, less = fewer + 1 := ⟨less - 1, by omega⟩
    obtain ⟨later, laterBounded, finds, -⟩ := @indexOfWhile_round sub str pattern text spellsSub
      spells less i some within (by omega) (more ++ [])
    refine ⟨i, later ++ (more ++ []), run.trans (finds first.occurs), ?_, .inl ⟨i, rfl, first⟩⟩
    rw [List.append_nil]
    exact List.forall_mem_append.mpr ⟨laterBounded, bounded⟩
  · obtain ⟨less, more, left, bounded, run⟩ := indexOfWhile_scanned spellsSub spells some
      (absent none) enough []
    obtain ⟨less, rfl⟩ : ∃ fewer, less = fewer + 1 := ⟨less - 1, by omega⟩
    refine ⟨-1, _, run.trans (indexOfWhile_end spells less _), ?_, .inr ⟨rfl, none⟩⟩
    rw [List.append_nil]
    exact List.forall_mem_cons.mpr ⟨Nat.le_refl _, bounded⟩

/-- The search comes to a place in front of which the pattern does not occur, or passes it. -/
theorem scanned_or_passed (le : i ≤ text.length) (first : ∀ k < i, ¬ pattern <+: text.drop k) :
    Scanned pattern text i ∨ ∃ p, Scanned pattern text p ∧ i < p := by
  have search : ∀ left p, i - p = left → p ≤ i → Scanned pattern text p →
      Scanned pattern text i ∨ ∃ p, Scanned pattern text p ∧ i < p := by
    intro left
    induction left using Nat.strong_induction_on with
    | _ left ih =>
        intro p gap before scanned
        rcases Nat.eq_or_lt_of_le before with rfl | earlier
        · exact .inl scanned
        · have next := Scanned.next scanned (by omega) (first p earlier)
          by_cases passed : i < p + matching pattern (text.drop p) + 1
          · exact .inr ⟨_, next, passed⟩
          · exact ih _ (by omega) _ rfl (Nat.le_of_not_lt passed) next
  exact search i 0 (Nat.sub_zero i) (Nat.zero_le i) .start

/-- A search that passes a place does not find it. -/
theorem indexOf_passed (spellsSub : Spells sub pattern) (spells : Spells str text)
    (some : pattern ≠ []) (enough : text.length < fuel) {p : Nat} {found : Int} {reads : List Nat}
    (scanned : Scanned pattern text p) (run : indexOf sub str fuel [] = .ok found reads) :
    (found = -1 ∨ (p : Int) ≤ found) ∧ p ∈ reads := by
  obtain ⟨less, more, -, -, same⟩ := indexOfWhile_scanned spellsSub spells some scanned enough []
  rw [indexOf, same] at run
  obtain ⟨bound, kept⟩ := indexOfWhile_goes run
  exact ⟨bound, kept List.mem_cons_self⟩

theorem FirstAt.unique {j : Nat} (one : FirstAt pattern text i) (two : FirstAt pattern text j) :
    i = j := by
  rcases Nat.lt_trichotomy i j with before | same | after
  · exact absurd one.occurs (two.first i before)
  · exact same
  · exact absurd two.occurs (one.first j after)

/-- A pattern that occurs has a first place. -/
theorem exists_firstAt (occurs : ∃ i, pattern <+: text.drop i) : ∃ i, FirstAt pattern text i :=
  ⟨Nat.find occurs, Nat.find_spec occurs, fun _ before => Nat.find_min occurs before⟩

theorem strLen_run (spells : Spells str text) {len : Nat} (le : len ≤ text.length)
    (enough : text.length < fuel + len) (reads : List Nat) :
    strLen str fuel len reads = .ok text.length reads := by
  induction fuel generalizing len with
  | zero => omega
  | succ fuel ih =>
      rw [strLen]
      rcases Nat.eq_or_lt_of_le le with rfl | within
      · rw [if_neg (not_not_intro spells.zero)]
        rfl
      · rw [if_pos (spells.ne_zero within)]
        exact ih within (by omega)

/-- The value stands behind the name that was found. -/
theorem cmdlineArgVal_run (spellsSub : Spells sub pattern) {reads : List Nat}
    (short : pattern.length < fuel) (run : indexOf sub str fuel [] = .ok (i : Int) reads) :
    cmdlineArgVal str sub fuel [] = .ok ((i + pattern.length : Nat) : Int) reads := by
  have found : ((i : Int) ≠ -1) := by omega
  rw [cmdlineArgVal, Prog.bind_ok run, if_neg found,
    Prog.bind_ok (strLen_run spellsSub (Nat.zero_le _) short reads)]
  rfl

/-- The first place of the pattern is found, or that there is none, just when the search comes
to that place, or to the end of the string. -/
theorem findsFirst_iff_scanned (spellsSub : Spells sub pattern) (spells : Spells str text)
    (some : pattern ≠ []) (enough : text.length < fuel) :
    (FindsFirst pattern text (indexOf sub str fuel []) ∧
        ∀ i, FirstAt pattern text i → ∃ reads,
          cmdlineArgVal str sub fuel [] = .ok ((i + pattern.length : Nat) : Int) reads) ↔
      (∀ i, FirstAt pattern text i → Scanned pattern text i) ∧
        ((∀ i, ¬ pattern <+: text.drop i) → Scanned pattern text text.length) := by
  constructor
  · rintro ⟨⟨found, reads, run, bounded, result⟩, -⟩
    constructor
    · intro i first
      have within := occurs_lt some first.occurs
      rcases scanned_or_passed (Nat.le_of_lt within) first.first with scanned | ⟨p, passed, later⟩
      · exact scanned
      · have bound := (indexOf_passed spellsSub spells some enough passed run).1
        rcases result with ⟨j, same, other⟩ | ⟨-, none⟩
        · have equal := FirstAt.unique first other
          omega
        · exact absurd first.occurs (none i)
    · intro none
      rcases scanned_or_passed (Nat.le_refl text.length) (fun k _ => none k) with
        scanned | ⟨p, passed, later⟩
      · exact scanned
      · have read := (indexOf_passed spellsSub spells some enough passed run).2
        have inside := bounded p read
        omega
  · rintro ⟨occurs, absent⟩
    by_cases place : ∃ i, pattern <+: text.drop i
    · obtain ⟨i, first⟩ := exists_firstAt place
      have finds := indexOf_scanned spellsSub spells some enough (occurs i) absent (.inl first)
      refine ⟨finds, fun j other => ?_⟩
      obtain ⟨found, reads, run, -, ⟨k, rfl, here⟩ | ⟨-, none⟩⟩ := finds
      · have short := other.occurs.length_le
        rw [List.length_drop] at short
        rw [FirstAt.unique other here]
        exact ⟨reads, cmdlineArgVal_run spellsSub (by omega) run⟩
      · exact absurd first.occurs (none i)
    · have none : ∀ k, ¬ pattern <+: text.drop k := fun k occurs => place ⟨k, occurs⟩
      exact ⟨@indexOf_scanned sub str pattern text fuel 0 spellsSub spells some enough (occurs 0)
        absent (.inr none), fun i first => absurd first.occurs (none i)⟩

/-- The first place of the pattern is found, or that there is none, exactly if the text in front
of that place, or the whole text, is made of words on which the comparison fails. -/
theorem indexOf_iff (spellsSub : Spells sub pattern) (spells : Spells str text)
    (some : pattern ≠ []) (enough : text.length < fuel) :
    (FindsFirst pattern text (indexOf sub str fuel []) ∧
        ∀ i, FirstAt pattern text i → ∃ reads,
          cmdlineArgVal str sub fuel [] = .ok ((i + pattern.length : Nat) : Int) reads) ↔
      (∀ i, FirstAt pattern text i → text.take i ∈ (misses pattern)∗) ∧
        ((∀ i, ¬ pattern <+: text.drop i) → text ∈ (misses pattern)∗) := by
  have whole := @scanned_iff text pattern text.length (Nat.le_refl _)
  rw [List.take_length] at whole
  rw [findsFirst_iff_scanned spellsSub spells some enough, whole]
  refine and_congr_left fun _ => forall₂_congr fun i first => ?_
  exact scanned_iff (Nat.le_of_lt (occurs_lt some first.occurs))

/-- A string with its zero as it lies in memory. -/
def stringMemory (text : List UInt8) : Mem :=
  write (fun _ => 0) 0 (text ++ [0])

theorem stringMemory_spells {text : List UInt8} (nonzero : ∀ c ∈ text, c ≠ 0) :
    Spells (stringMemory text) text := by
  refine ⟨fun i inside => ?_, ?_, nonzero⟩
  · have stored := @write_inside (fun _ => 0) 0 i (text ++ [0])
      (by rw [List.length_append]; omega)
    rwa [Nat.zero_add, List.getElem_append_left inside] at stored
  · have stored := @write_inside (fun _ => 0) 0 text.length (text ++ [0])
      (by rw [List.length_append]; exact Nat.lt_succ_self _)
    rwa [Nat.zero_add, List.getElem_concat_length rfl] at stored

/-- `b` is found in `ab`. -/
theorem indexOf_iff_letter :
    FindsFirst [0x62] [0x61, 0x62]
        (indexOf (stringMemory [0x62]) (stringMemory [0x61, 0x62]) 3 []) ∧
      ∀ i, FirstAt [0x62] [0x61, 0x62] i → ∃ reads,
        cmdlineArgVal (stringMemory [0x61, 0x62]) (stringMemory [0x62]) 3 [] =
          .ok ((i + [(0x62 : UInt8)].length : Nat) : Int) reads := by
  have second : FirstAt [0x62] [0x61, 0x62] 1 := ⟨by decide, by decide⟩
  refine (indexOf_iff (stringMemory_spells (by simp)) (stringMemory_spells (by simp)) (by decide)
    (by decide)).mpr ⟨fun i first => ?_, fun none => absurd second.occurs (none 1)⟩
  have single : misses [0x62] ≤ (misses [0x62])∗ := le_kstar
  rw [first.unique second]
  exact single ⟨0, by decide, 0x61, by decide, rfl⟩

/-- `ab` is not found in `aab`, where it occurs. -/
theorem indexOf_misses :
    ¬ FindsFirst [0x61, 0x62] [0x61, 0x61, 0x62]
      (indexOf (stringMemory [0x61, 0x62]) (stringMemory [0x61, 0x61, 0x62]) 4 []) := by
  rintro ⟨found, reads, run, -, ⟨i, rfl, -⟩ | ⟨-, none⟩⟩
  · have value := congrArg Outcome.value? run
    have missed : (indexOf (stringMemory [0x61, 0x62]) (stringMemory [0x61, 0x61, 0x62]) 4
        []).value? = some (-1) := by decide +kernel
    rw [missed] at value
    have same := Option.some.inj value
    omega
  · exact none 1 (by decide)

end Results

end Sable
