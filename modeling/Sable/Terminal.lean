import Sable.LineEditing
import Sable.Util

/-!
# Reading lines from any source of characters

`get_string` of `keyboard.c` once more, for a source of characters that is a parameter, with a
record of the bytes of the buffer that it writes.  On the keyboard of the machine it runs as
in the boot flow.
-/

namespace Sable

open ByteMemory HaltingProgram

/-- A source of characters, the buffer of the line, the places in it that have been written,
and the screen. -/
structure Terminal (σ : Type) where
  source : σ
  buffer : Mem
  writes : List Nat
  screen : List UInt8

namespace Terminal

section GetString

variable {σ : Type} (next : σ → Option (UInt8 × σ)) (strSize : Nat) (shown : Bool)

def getchar : Prog Halt (Terminal σ) UInt8 := fun t =>
  match next t.source with
  | none => .halt .blocked t
  | some (c, source) => .ok c { t with source := source }

def store (i : Nat) (c : UInt8) : Prog Halt (Terminal σ) Unit :=
  Prog.modify fun t => { t with buffer := write t.buffer i [c], writes := i :: t.writes }

def outChar (c : UInt8) : Prog Halt (Terminal σ) Unit :=
  Prog.modify fun t => { t with screen := t.screen ++ [c] }

/-- `if (show) out_char(c)` -/
def echo (c : UInt8) : Prog Halt (Terminal σ) Unit :=
  if shown then outChar c else pure ()

/-- The loop of `get_string`, with a bound on its rounds; a run that needs more of them waits
for characters that do not come. -/
def getStringLoop : Nat → Nat → Prog Halt (Terminal σ) Nat
  | 0, _ => Prog.halt .blocked
  | fuel + 1, i =>
      if i < strSize then do
        let c ← getchar next
        if c = 0x0D then return i
        else if c = 0x08 then
          store i 0
          if i > 0 then
            echo shown c
            getStringLoop fuel (i - 1)
          else getStringLoop fuel i
        else if c ≠ 0 then
          store i c
          echo shown c
          getStringLoop fuel (i + 1)
        else getStringLoop fuel i
      else return i

def getString (fuel : Nat) : Prog Halt (Terminal σ) Nat := do
  let _ ← getchar next
  let i ← getStringLoop next strSize shown fuel 0
  store i 0
  outChar 0x0A
  return i

end GetString

section Sources

variable {σ : Type} {next : σ → Option (UInt8 × σ)}

/-- The source delivers the characters one after the other. -/
inductive Delivers (next : σ → Option (UInt8 × σ)) : σ → List UInt8 → σ → Prop
  | nothing (source : σ) : Delivers next source [] source
  | character {source after last : σ} {c : UInt8} {input : List UInt8}
      (first : next source = some (c, after)) (rest : Delivers next after input last) :
      Delivers next source (c :: input) last

/-- A list of characters as a source. -/
def listed : List UInt8 → Option (UInt8 × List UInt8)
  | [] => none
  | c :: input => some (c, input)

theorem listed_delivers (input : List UInt8) : Delivers listed input input [] := by
  induction input with
  | nil => exact .nothing []
  | cons c input ih => exact .character rfl ih

end Sources

section Loop

variable {σ : Type} {next : σ → Option (UInt8 × σ)} {strSize fuel : Nat} {shown : Bool}
  {held input : List UInt8} {c : UInt8} {t : Terminal σ} {last : σ}

/-- Only places of the buffer below a bound have been written, and nothing else has changed. -/
structure Writes (bound : Nat) (before after : Terminal σ) : Prop where
  writes : ∃ more, after.writes = more ++ before.writes ∧ ∀ i ∈ more, i < bound
  outside : ∀ a, bound ≤ a → after.buffer a = before.buffer a

theorem Writes.refl (bound : Nat) (t : Terminal σ) : Writes bound t t :=
  ⟨⟨[], rfl, by simp⟩, fun _ _ => rfl⟩

theorem Writes.trans {bound : Nat} {first second third : Terminal σ}
    (one : Writes bound first second) (two : Writes bound second third) :
    Writes bound first third := by
  obtain ⟨early, earlyWrites, earlyBound⟩ := one.writes
  obtain ⟨late, lateWrites, lateBound⟩ := two.writes
  refine ⟨⟨late ++ early, ?_, List.forall_mem_append.mpr ⟨lateBound, earlyBound⟩⟩,
    fun a behind => (two.outside a behind).trans (one.outside a behind)⟩
  rw [lateWrites, earlyWrites, List.append_assoc]

/-- What the loop leaves behind. -/
structure Edits (next : σ → Option (UInt8 × σ)) (strSize : Nat) (line : Line) (input : List UInt8)
    (before : Terminal σ) (outcome : Outcome Halt (Terminal σ) Nat) : Prop where
  result : outcome = if line.finished then .ok line.text.length outcome.state
    else .halt .blocked outcome.state
  holds : Holds outcome.state.buffer line.text
  writes : Writes strSize before outcome.state
  source : Delivers next before.source (input.take line.taken) outcome.state.source

theorem getchar_run (first : next t.source = some (c, last)) :
    getchar next t = .ok c { t with source := last } := by
  rw [getchar, first]

/-- The terminal when a byte has been stored. -/
def stored (t : Terminal σ) (i : Nat) (c : UInt8) : Terminal σ :=
  { t with buffer := write t.buffer i [c], writes := i :: t.writes }

theorem store_run (i : Nat) (c : UInt8) (t : Terminal σ) : store i c t = .ok () (t.stored i c) :=
  rfl

theorem stored_writes {i : Nat} (inside : i < strSize) : Writes strSize t (t.stored i c) := by
  refine ⟨⟨[i], rfl, by simpa using inside⟩, fun a behind => ?_⟩
  exact write_outside t.buffer (.inr (by rw [List.length_singleton]; omega))

theorem echo_run (shown : Bool) (c : UInt8) (t : Terminal σ) :
    ∃ after, echo shown c t = .ok () after ∧ after.source = t.source ∧ after.buffer = t.buffer ∧
      after.writes = t.writes := by
  cases shown with
  | false => exact ⟨t, rfl, rfl, rfl, rfl⟩
  | true => exact ⟨{ t with screen := t.screen ++ [c] }, rfl, rfl, rfl, rfl⟩

theorem Writes.of_eq {bound : Nat} {before after : Terminal σ}
    (writes : after.writes = before.writes)
    (buffer : after.buffer = before.buffer) : Writes bound before after :=
  ⟨⟨[], writes, by simp⟩, fun a _ => congrFun buffer a⟩

/-- One round of the loop for a character that does not end the line. -/
theorem getStringLoop_press (first : next t.source = some (c, last)) (room : held.length < strSize)
    (other : c ≠ 0x0D) :
    ∃ pressed : Terminal σ, getStringLoop next strSize shown (fuel + 1) held.length t =
        getStringLoop next strSize shown fuel (press held c).length pressed ∧
      pressed.source = last ∧ pressed.buffer = pressInto t.buffer held.length c ∧
      Writes strSize t pressed := by
  have taken : Writes strSize t { t with source := last } := .of_eq rfl rfl
  rw [getStringLoop, if_pos room, Prog.bind_ok (getchar_run first), if_neg other, pressInto, press]
  by_cases back : c = 0x08
  · rw [if_pos back, if_pos back, if_pos back, List.length_dropLast, Prog.bind_ok (store_run _ _ _)]
    by_cases some : held.length > 0
    · obtain ⟨after, echoes, source, buffer, writes⟩ :=
        echo_run shown c (Terminal.stored { t with source := last } held.length 0)
      rw [if_pos some, Prog.bind_ok echoes]
      exact ⟨after, rfl, source, buffer,
        taken.trans ((stored_writes room).trans (.of_eq writes buffer))⟩
    · rw [if_neg some, show held.length - 1 = held.length by omega]
      exact ⟨_, rfl, rfl, rfl, taken.trans (stored_writes room)⟩
  · rw [if_neg back, if_neg back, if_neg back]
    by_cases none : c = 0
    · rw [if_neg (not_not_intro none), if_pos none, if_pos none]
      exact ⟨_, rfl, rfl, rfl, taken⟩
    · obtain ⟨after, echoes, source, buffer, writes⟩ :=
        echo_run shown c (Terminal.stored { t with source := last } held.length c)
      rw [if_pos none, if_neg none, if_neg none, List.length_append, List.length_singleton,
        Prog.bind_ok (store_run _ _ _), Prog.bind_ok echoes]
      exact ⟨after, rfl, source, buffer,
        taken.trans ((stored_writes room).trans (.of_eq writes buffer))⟩

theorem getStringLoop_run (delivers : Delivers next t.source input last) (ends : next last = none)
    (enough : input.length < fuel) (holds : Holds t.buffer held) :
    Edits next strSize (editLine strSize held input) input t
      (getStringLoop next strSize shown fuel held.length t) := by
  induction input generalizing fuel held t with
  | nil =>
      obtain ⟨fuel, rfl⟩ : ∃ less, fuel = less + 1 := ⟨fuel - 1, by simp at enough; omega⟩
      obtain ⟨last⟩ := delivers
      rw [getStringLoop, editLine]
      by_cases full : strSize ≤ held.length
      · rw [if_neg (by omega), decide_eq_true full]
        exact ⟨rfl, holds, .refl _ _, .nothing _⟩
      · have blocked : getchar next t = .halt .blocked t := by
          rw [getchar, ends]
        rw [if_pos (by omega), decide_eq_false full, Prog.bind_halt blocked]
        exact ⟨rfl, holds, .refl _ _, .nothing _⟩
  | cons c input ih =>
      rw [List.length_cons] at enough
      obtain ⟨fuel, rfl⟩ : ∃ less, fuel = less + 1 := ⟨fuel - 1, by omega⟩
      rw [editLine]
      by_cases full : strSize ≤ held.length
      · rw [if_pos full, getStringLoop, if_neg (by omega)]
        exact ⟨rfl, holds, .refl _ _, .nothing _⟩
      · rw [if_neg full]
        have room := Nat.lt_of_not_le full
        obtain ⟨after, first, rest⟩ : ∃ after, next t.source = some (c, after) ∧
            Delivers next after input last := by
          cases delivers with
          | character first rest => exact ⟨_, first, rest⟩
        by_cases ends : c = 0x0D
        · rw [if_pos ends, getStringLoop, if_pos room, Prog.bind_ok (getchar_run first),
            if_pos ends]
          exact ⟨rfl, holds, .of_eq rfl rfl, .character first (.nothing _)⟩
        · rw [if_neg ends]
          obtain ⟨pressed, step, source, buffer, writes⟩ :=
            @getStringLoop_press σ next strSize fuel shown held c t after first room ends
          have holds' : Holds pressed.buffer (press held c) := by
            rw [buffer]
            exact holds.press c
          have later := ih (source ▸ rest) (Nat.lt_of_succ_lt_succ enough) holds'
          rw [step]
          refine ⟨later.result, later.holds, writes.trans later.writes, ?_⟩
          exact .character first (source ▸ later.source)

end Loop

section Strings

variable {σ : Type} {next : σ → Option (UInt8 × σ)} {strSize fuel : Nat} {shown : Bool}
  {input : List UInt8} {c : UInt8} {t : Terminal σ} {last : σ}

/-- What `get_string` makes of the characters behind the first one: the buffer has the edited
line with a zero behind it, and its length is returned.  A line that is not finished is waited
for.  The loop writes below `strSize`, and the zero goes behind the text. -/
structure GetsLine (next : σ → Option (UInt8 × σ)) (strSize : Nat) (c : UInt8)
    (input : List UInt8) (line : Line) (before : Terminal σ)
    (outcome : Outcome Halt (Terminal σ) Nat) : Prop where
  result : outcome = if line.finished then .ok line.text.length outcome.state
    else .halt .blocked outcome.state
  text : read outcome.state.buffer 0 line.text.length = line.text
  terminated : line.finished = true → outcome.state.buffer line.text.length = 0
  fits : line.text.length ≤ strSize
  writes : ∃ more, (∀ i ∈ more, i < strSize) ∧ outcome.state.writes =
    (if line.finished then line.text.length :: more else more) ++ before.writes
  outside : ∀ a, strSize < a → outcome.state.buffer a = before.buffer a
  source : Delivers next before.source ((c :: input).take (line.taken + 1)) outcome.state.source

theorem getString_run (delivers : Delivers next t.source (c :: input) last)
    (ends : next last = none)
    (enough : input.length < fuel) :
    GetsLine next strSize c input (editLine strSize [] input) t
      (getString next strSize shown fuel t) := by
  obtain ⟨after, first, rest⟩ : ∃ after, next t.source = some (c, after) ∧
      Delivers next after input last := by
    cases delivers with
    | character first rest => exact ⟨_, first, rest⟩
  have loop := @getStringLoop_run σ next strSize fuel shown [] input { t with source := after } last
    rest ends enough rfl
  rw [List.length_nil] at loop
  have fits := @length_editLine_le strSize [] input (Nat.zero_le _)
  obtain ⟨more, added, small⟩ := loop.writes.writes
  have source : Delivers next t.source ((c :: input).take ((editLine strSize [] input).taken + 1))
      (getStringLoop next strSize shown fuel 0 { t with source := after }).state.source :=
    .character first loop.source
  rw [getString, Prog.bind_ok (getchar_run first)]
  by_cases finished : (editLine strSize [] input).finished = true
  · have run := loop.result
    rw [if_pos finished] at run
    have zero := @write_inside (getStringLoop next strSize shown fuel 0
      { t with source := after }).state.buffer (editLine strSize [] input).text.length 0 [0]
      Nat.one_pos
    rw [Prog.bind_ok run, Prog.bind_ok (store_run _ _ _)]
    refine ⟨?_, loop.holds.behind [0], fun _ => zero, fits, ⟨more, small, ?_⟩, fun a behind => ?_,
      source⟩
    · rw [if_pos finished]
      rfl
    · rw [if_pos finished, List.cons_append]
      exact congrArg _ added
    · exact (write_outside _ (.inr (by rw [List.length_singleton]; omega))).trans
        (loop.writes.outside a (Nat.le_of_lt behind))
  · have run := loop.result
    rw [if_neg finished] at run
    rw [Prog.bind_halt run]
    refine ⟨?_, loop.holds, fun yes => absurd yes finished, fits, ⟨more, small, ?_⟩,
      fun a behind => loop.writes.outside a (Nat.le_of_lt behind), source⟩
    · rw [if_neg finished]
      rfl
    · rw [if_neg finished]
      exact added

/-- For all characters that come from the keyboard and every buffer, `get_string` reads the
edited line and writes nothing but the first `strSize + 1` bytes of the buffer. -/
theorem getString_edits (t : Terminal (List UInt8)) (strSize : Nat) (shown : Bool)
    (source : t.source = c :: input) (enough : input.length < fuel) :
    GetsLine listed strSize c input (editLine strSize [] input) t
        (getString listed strSize shown fuel t) ∧
      ∀ i ∈ (getString listed strSize shown fuel t).state.writes,
        i ∈ t.writes ∨ i < strSize + 1 := by
  have delivers : Delivers listed t.source (c :: input) [] := by
    rw [source]
    exact listed_delivers _
  have gets := @getString_run _ listed strSize fuel shown input c t [] delivers rfl enough
  refine ⟨gets, fun i member => ?_⟩
  obtain ⟨more, small, added⟩ := gets.writes
  have fits := gets.fits
  rw [added, List.mem_append] at member
  refine member.symm.imp_right fun here => ?_
  by_cases finished : (editLine strSize [] input).finished = true
  · rw [if_pos finished] at here
    rcases List.mem_cons.mp here with rfl | inside
    · exact Nat.lt_succ_of_le fits
    · exact Nat.lt_succ_of_lt (small i inside)
  · rw [if_neg finished] at here
    exact Nat.lt_succ_of_lt (small i here)

/-- Two characters, one of which is taken back. -/
theorem getString_edits_correction :
    GetsLine listed 4 0x0D [0x61, 0x62, 0x08, 0x0D] ⟨[0x61], 4, true⟩
        ⟨[0x0D, 0x61, 0x62, 0x08, 0x0D], fun _ => 7, [], []⟩
        (getString listed 4 true 5 ⟨[0x0D, 0x61, 0x62, 0x08, 0x0D], fun _ => 7, [], []⟩) ∧
      ∀ i ∈ (getString listed 4 true 5
          ⟨[0x0D, 0x61, 0x62, 0x08, 0x0D], fun _ => 7, [], []⟩).state.writes,
        i ∈ [] ∨ i < 4 + 1 :=
  getString_edits ⟨[0x0D, 0x61, 0x62, 0x08, 0x0D], fun _ => 7, [], []⟩ 4 true rfl (by decide)

end Strings

end Terminal

section Boot

open Terminal

variable {σ : Type} {strSize fuel : Nat} {shown : Bool} {first : UInt8} {input : List UInt8}
  {m : Machine σ}

/-- The machine with the keyboard of a terminal, and with what is on its screen printed. -/
def Machine.withTerminal (m : Machine σ) (t : Terminal (List UInt8)) : Machine σ :=
  { m with keys := t.source, log := m.log ++ t.screen.map fun c => .output [c] }

/-- What a run on a terminal is to the machine. -/
def onTerminal (m : Machine σ) :
    Outcome Halt (Terminal (List UInt8)) Nat → Outcome Halt (Machine σ) (Mem × Nat)
  | .ok length t => .ok (t.buffer, length) (m.withTerminal t)
  | .halt reason t => .halt reason (m.withTerminal t)

theorem getchar_run (keys : m.keys = first :: input) :
    getchar m = .ok first { m with keys := input } := by
  rw [getchar, keys]

theorem outChar_withTerminal (c : UInt8) (t : Terminal (List UInt8)) :
    outChar c (m.withTerminal t) =
      .ok () (m.withTerminal { t with screen := t.screen ++ [c] }) := by
  simp only [outChar, emit, Prog.modify, Machine.withTerminal, List.map_append,
    List.map_singleton, List.append_assoc]

theorem echo_withTerminal {α : Type} (rest : Boot σ α) (c : UInt8) (t : Terminal (List UInt8)) :
    ∃ after, echo shown c t = .ok () after ∧ after.buffer = t.buffer ∧
      (if shown then outChar c >>= fun _ => rest else rest) (m.withTerminal t) =
        rest (m.withTerminal after) := by
  cases shown with
  | false => exact ⟨t, rfl, rfl, rfl⟩
  | true =>
      refine ⟨{ t with screen := t.screen ++ [c] }, rfl, rfl, ?_⟩
      rw [if_pos rfl, Prog.bind_ok (outChar_withTerminal c t)]

theorem getStringLoop_onTerminal (t : Terminal (List UInt8)) (i : Nat) :
    getStringLoop strSize shown fuel t.buffer i (m.withTerminal t) =
      onTerminal m (Terminal.getStringLoop listed strSize shown fuel i t) := by
  induction fuel generalizing t i with
  | zero => rfl
  | succ fuel ih =>
      rw [getStringLoop, Terminal.getStringLoop]
      by_cases room : i < strSize
      case neg =>
        rw [if_neg room, if_neg room]
        rfl
      rw [if_pos room, if_pos room]
      cases keys : t.source with
      | nil =>
          have blocked : getchar (m.withTerminal t) = .halt .blocked (m.withTerminal t) := by
            rw [getchar, show (m.withTerminal t).keys = [] from keys]
          have waits : Terminal.getchar listed t = .halt .blocked t := by
            rw [Terminal.getchar, keys, listed]
          rw [Prog.bind_halt blocked, Prog.bind_halt waits, onTerminal]
      | cons c input =>
          let t' : Terminal (List UInt8) := { t with source := input }
          have taken : getchar (m.withTerminal t) = .ok c (m.withTerminal t') := getchar_run keys
          have delivered : Terminal.getchar listed t = .ok c t' := by
            rw [Terminal.getchar, keys, listed]
          rw [Prog.bind_ok taken, Prog.bind_ok delivered]
          by_cases ends : c = 0x0D
          · rw [if_pos ends, if_pos ends]
            rfl
          rw [if_neg ends, if_neg ends]
          by_cases back : c = 0x08
          · rw [if_pos back, if_pos back, Prog.bind_ok (store_run i 0 t')]
            by_cases some : 0 < i
            · obtain ⟨after, echoes, buffer, shows⟩ := @echo_withTerminal σ shown m _
                (getStringLoop strSize shown fuel (write t.buffer i [0]) (i - 1)) c
                (t'.stored i 0)
              rw [if_pos some, if_pos some, Prog.bind_ok echoes, ← ih, buffer]
              exact shows
            · rw [if_neg some, if_neg some, ← ih]
              rfl
          rw [if_neg back, if_neg back]
          by_cases none : c = 0
          · rw [if_pos none, if_neg (not_not_intro none), ← ih]
          · obtain ⟨after, echoes, buffer, shows⟩ := @echo_withTerminal σ shown m _
              (getStringLoop strSize shown fuel (write t.buffer i [c]) (i + 1)) c (t'.stored i c)
            rw [if_neg none, if_pos none, Prog.bind_ok (store_run i c t'), Prog.bind_ok echoes,
              ← ih, buffer]
            exact shows

/-- The boot flow runs `get_string` on the keyboard and the screen of the machine. -/
theorem getString_onTerminal (str : Mem) (keys : m.keys = first :: input) :
    getString str strSize shown m =
      onTerminal m (Terminal.getString listed strSize shown (input.length + 1)
        ⟨m.keys, str, [], []⟩) := by
  let t : Terminal (List UInt8) := ⟨input, str, [], []⟩
  have start : { m with keys := input } = m.withTerminal t := by
    simp [Machine.withTerminal, t]
  have delivered : Terminal.getchar listed ⟨m.keys, str, [], []⟩ = .ok first t := by
    rw [Terminal.getchar, keys, listed]
  have loop : getStringLoop strSize shown ((m.withTerminal t).keys.length + 1) str 0
      (m.withTerminal t) =
        onTerminal m (Terminal.getStringLoop listed strSize shown (input.length + 1) 0 t) :=
    getStringLoop_onTerminal t 0
  rw [getString, Terminal.getString, Prog.bind_ok (getchar_run keys), Prog.bind_ok delivered,
    Prog.bind_get, start]
  cases run : Terminal.getStringLoop listed strSize shown (input.length + 1) 0 t with
  | halt reason after =>
      rw [run, onTerminal] at loop
      rw [Prog.bind_halt loop, Prog.bind_halt run, onTerminal]
  | ok i after =>
      rw [run, onTerminal] at loop
      rw [Prog.bind_ok loop, Prog.bind_ok run, Prog.bind_ok (store_run _ _ _)]
      exact Prog.bind_ok (outChar_withTerminal _ _) _

/-- What `get_string` makes of the characters behind the first one: the buffer has the edited
line with a zero behind it, and only `strSize + 1` bytes of it have been written. -/
def ReadsLine (str : Mem) (strSize : Nat) (input : List UInt8)
    (outcome : Outcome Halt (Machine σ) (Mem × Nat)) : Prop :=
  let line := editLine strSize [] input
  if line.finished then
    ∃ str' reached, outcome = .ok (str', line.text.length) reached ∧
      read str' 0 line.text.length = line.text ∧ str' line.text.length = 0 ∧
      (∀ a, strSize + 1 ≤ a → str' a = str a) ∧ reached.keys = input.drop line.taken
  else ∃ reached, outcome = .halt .blocked reached

/-- A list delivers its characters from its front. -/
theorem Terminal.Delivers.eq_append {source taken left : List UInt8}
    (delivers : Delivers listed source taken left) : source = taken ++ left := by
  induction delivers with
  | nothing source => rfl
  | @character source after last c input first rest ih =>
      cases source with
      | nil => cases first
      | cons key keys =>
          obtain ⟨rfl, rfl⟩ := Prod.mk.inj (Option.some.inj first)
          rw [ih, List.cons_append]

/-- For all characters that come from the keyboard and every buffer, the boot flow reads the
edited line. -/
theorem getString_reads (str : Mem) (strSize : Nat) (shown : Bool)
    (keys : m.keys = first :: input) :
    ReadsLine str strSize input (getString str strSize shown m) := by
  obtain ⟨gets, -⟩ := @getString_edits (input.length + 1) input first ⟨m.keys, str, [], []⟩
    strSize shown keys (Nat.lt_succ_self _)
  have run := gets.result
  rw [ReadsLine, getString_onTerminal str keys]
  by_cases finished : (editLine strSize [] input).finished = true
  · rw [if_pos finished] at run ⊢
    rw [run, onTerminal]
    refine ⟨_, _, rfl, gets.text, gets.terminated finished, gets.outside, ?_⟩
    have left := keys.symm.trans gets.source.eq_append
    rw [List.take_succ_cons, List.cons_append, List.cons.injEq] at left
    exact List.append_cancel_left (left.2.symm.trans (List.take_append_drop _ input).symm)
  · rw [if_neg finished] at run ⊢
    rw [run, onTerminal]
    exact ⟨_, rfl⟩

end Boot

end Sable
