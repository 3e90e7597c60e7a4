import Mathlib.Algebra.Group.Nat.Defs
import Mathlib.Data.List.Basic
import Mathlib.Tactic.Common

/-!
# Programs that return or halt

A program over a state either returns a value or halts for good; in both cases
the state reached is kept, so that a trace recorded in the state can be read
off after a halted run as well.  This file gives the monad, frame rules for
parts of the state a program does not change, rules for what holds when a
run returns or halts, and rules for programs that run alike.
-/

namespace HaltingProgram

/-- How a run ends: with a value, or halted for the given reason. -/
inductive Outcome (ε σ α : Type) where
  | ok (value : α) (state : σ)
  | halt (reason : ε) (state : σ)

namespace Outcome

variable {ε σ α : Type}

/-- The state in which the run ended. -/
def state : Outcome ε σ α → σ
  | ok _ reached => reached
  | halt _ reached => reached

/-- The value of a run that returned. -/
def value? : Outcome ε σ α → Option α
  | ok value _ => some value
  | halt _ _ => none

@[simp]
theorem state_ok (value : α) (reached : σ) :
    (ok value reached : Outcome ε σ α).state = reached :=
  rfl

@[simp]
theorem state_halt (reason : ε) (reached : σ) :
    (halt reason reached : Outcome ε σ α).state = reached :=
  rfl

@[simp]
theorem value?_ok (value : α) (reached : σ) :
    (ok value reached : Outcome ε σ α).value? = some value :=
  rfl

@[simp]
theorem value?_halt (reason : ε) (reached : σ) :
    (halt reason reached : Outcome ε σ α).value? = none :=
  rfl

theorem eq_ok_of_value? {outcome : Outcome ε σ α} {value : α}
    (returns : outcome.value? = some value) : ∃ reached, outcome = ok value reached := by
  cases outcome with
  | ok result reached =>
      cases returns
      exact ⟨reached, rfl⟩
  | halt reason reached => cases returns

end Outcome

/-- A program maps the state it is started in to the outcome of its run. -/
def Prog (ε σ α : Type) := σ → Outcome ε σ α

namespace Prog

variable {ε σ α β : Type}

/-- Return a value and leave the state alone. -/
def ret (value : α) : Prog ε σ α :=
  fun state => .ok value state

/-- Run the first program and, if it returns, the second one. -/
def seq (program : Prog ε σ α) (next : α → Prog ε σ β) : Prog ε σ β :=
  fun state =>
    match program state with
    | .ok value reached => next value reached
    | .halt reason reached => .halt reason reached

instance : Monad (Prog ε σ) where
  pure := ret
  bind := seq

/-- Stop for good. -/
def halt (reason : ε) : Prog ε σ α :=
  fun state => .halt reason state

/-- The current state. -/
def get : Prog ε σ σ :=
  fun state => .ok state state

/-- Replace the state. -/
def modify (update : σ → σ) : Prog ε σ Unit :=
  fun state => .ok () (update state)

/-- Run a state transformer that returns a value. -/
def step (transform : σ → α × σ) : Prog ε σ α :=
  fun state => .ok (transform state).1 (transform state).2

@[simp]
theorem pure_apply (value : α) (state : σ) :
    (pure value : Prog ε σ α) state = .ok value state :=
  rfl

@[simp]
theorem halt_apply (reason : ε) (state : σ) :
    (halt reason : Prog ε σ α) state = .halt reason state :=
  rfl

@[simp]
theorem get_apply (state : σ) : (get : Prog ε σ σ) state = .ok state state :=
  rfl

@[simp]
theorem modify_apply (update : σ → σ) (state : σ) :
    (modify update : Prog ε σ Unit) state = .ok () (update state) :=
  rfl

@[simp]
theorem step_apply (transform : σ → α × σ) (state : σ) :
    (step transform : Prog ε σ α) state =
      .ok (transform state).1 (transform state).2 :=
  rfl

theorem bind_apply (program : Prog ε σ α) (next : α → Prog ε σ β) (state : σ) :
    (program >>= next) state =
      match program state with
      | .ok value reached => next value reached
      | .halt reason reached => .halt reason reached :=
  rfl

/-- Execute the first program of a sequence whose run is known. -/
theorem bind_ok {program : Prog ε σ α} {state reached : σ} {value : α}
    (run : program state = .ok value reached) (next : α → Prog ε σ β) :
    (program >>= next) state = next value reached := by
  rw [bind_apply, run]

theorem bind_halt {program : Prog ε σ α} {state reached : σ} {reason : ε}
    (run : program state = .halt reason reached) (next : α → Prog ε σ β) :
    (program >>= next) state = .halt reason reached := by
  rw [bind_apply, run]

/-- A sequence depends only on the run of its first program. -/
theorem bind_eq_bind {program other : Prog ε σ α} {state start : σ}
    (same : program state = other start) (next : α → Prog ε σ β) :
    (program >>= next) state = (other >>= next) start := by
  rw [bind_apply, bind_apply, same]

@[simp]
theorem bind_get (next : σ → Prog ε σ β) (state : σ) :
    (get >>= next) state = next state state :=
  rfl

@[simp]
theorem bind_modify (update : σ → σ) (next : Unit → Prog ε σ β) (state : σ) :
    (modify update >>= next) state = next () (update state) :=
  rfl

@[simp]
theorem bind_pure_apply (value : α) (next : α → Prog ε σ β) (state : σ) :
    ((pure value : Prog ε σ α) >>= next) state = next value state :=
  rfl

@[simp]
theorem bind_step (transform : σ → α × σ) (next : α → Prog ε σ β) (state : σ) :
    (step transform >>= next) state =
      next (transform state).1 (transform state).2 :=
  rfl

theorem id_map_apply (program : Prog ε σ α) : id <$> program = program := by
  funext state
  change (match program state with
    | .ok value reached => .ok value reached
    | .halt reason reached => .halt reason reached) = program state
  cases program state <;> rfl

theorem bind_bind {γ : Type} (program : Prog ε σ α) (first : α → Prog ε σ β)
    (second : β → Prog ε σ γ) :
    program >>= first >>= second = program >>= fun value => first value >>= second := by
  funext state
  rw [bind_apply, bind_apply, bind_apply]
  cases program state <;> rfl

instance : LawfulMonad (Prog ε σ) :=
  LawfulMonad.mk' _ id_map_apply (fun _ _ => rfl) bind_bind

/-- A sequence returns exactly if both of its parts do. -/
theorem bind_eq_ok {program : Prog ε σ α} {next : α → Prog ε σ β}
    {state reached : σ} {value : β} :
    (program >>= next) state = .ok value reached ↔
      ∃ middle between, program state = .ok middle between ∧
        next middle between = .ok value reached := by
  rw [bind_apply]
  cases program state with
  | ok middle between => simp
  | halt reason between => simp

/-- A program with a test that returns early returns another value exactly if the test does
not hold and the rest returns it. -/
theorem ite_pure_eq_ok {condition : Prop} [Decidable condition] {early value : α}
    {next : Prog ε σ α} {state reached : σ} (different : early ≠ value) :
    (if condition then pure early else next : Prog ε σ α) state = .ok value reached ↔
      ¬ condition ∧ next state = .ok value reached := by
  by_cases holds : condition
  · simp [holds, different]
  · simp [holds]

section Frames

variable {γ : Type} {R : σ → σ → Prop}

/-- Every run of the program, however it ends, relates the state it starts in
to the one it ends in. -/
def Steps (R : σ → σ → Prop) (program : Prog ε σ α) : Prop :=
  ∀ state, R state (program state).state

/-- The program leaves the part `part` of the state unchanged. -/
def Preserves (part : σ → γ) (program : Prog ε σ α) : Prop :=
  Steps (fun before after => part after = part before) program

theorem Steps.ret (reflexive : ∀ state, R state state) (value : α) :
    Steps R (pure value : Prog ε σ α) :=
  reflexive

theorem Steps.halt (reflexive : ∀ state, R state state) (reason : ε) :
    Steps R (halt reason : Prog ε σ α) :=
  reflexive

theorem Steps.get (reflexive : ∀ state, R state state) :
    Steps R (get : Prog ε σ σ) :=
  reflexive

theorem Steps.modify {update : σ → σ} (holds : ∀ state, R state (update state)) :
    Steps R (modify update : Prog ε σ Unit) :=
  holds

theorem Steps.step {transform : σ → α × σ}
    (holds : ∀ state, R state (transform state).2) :
    Steps R (step transform : Prog ε σ α) :=
  holds

theorem Steps.bind {program : Prog ε σ α} {next : α → Prog ε σ β}
    (transitive : ∀ {first second third}, R first second → R second third →
      R first third)
    (first : Steps R program) (second : ∀ value, Steps R (next value)) :
    Steps R (program >>= next) := by
  intro state
  have before := first state
  rw [bind_apply]
  cases run : program state with
  | ok value reached =>
      rw [run] at before
      exact transitive before (second value reached)
  | halt reason reached =>
      rw [run] at before
      exact before

theorem Steps.ite {condition : Prop} [Decidable condition]
    {yes no : Prog ε σ α} (first : Steps R yes) (second : Steps R no) :
    Steps R (if condition then yes else no) := by
  split
  · exact first
  · exact second

theorem Preserves.bind {part : σ → γ} {program : Prog ε σ α}
    {next : α → Prog ε σ β} (first : Preserves part program)
    (second : ∀ value, Preserves part (next value)) :
    Preserves part (program >>= next) :=
  Steps.bind (fun early late => late.trans early) first second

theorem Preserves.ite {part : σ → γ} {condition : Prop} [Decidable condition]
    {yes no : Prog ε σ α} (first : Preserves part yes) (second : Preserves part no) :
    Preserves part (if condition then yes else no) :=
  Steps.ite first second

/-- The part at the end of a run that returned. -/
theorem Preserves.eq_of_ok {part : σ → γ} {program : Prog ε σ α}
    (preserves : Preserves part program) {state reached : σ} {value : α}
    (run : program state = .ok value reached) : part reached = part state := by
  have unchanged := preserves state
  rw [run] at unchanged
  exact unchanged

end Frames

section Reasons

variable {allowed : ε → Prop}

/-- A run of the program that halts does so for an allowed reason. -/
def Halts (allowed : ε → Prop) (program : Prog ε σ α) : Prop :=
  ∀ state reason reached, program state = .halt reason reached → allowed reason

theorem Halts.ret (value : α) : Halts allowed (pure value : Prog ε σ α) :=
  fun _ _ _ run => nomatch run

theorem Halts.halt {reason : ε} (holds : allowed reason) :
    Halts allowed (halt reason : Prog ε σ α) := by
  intro state other reached run
  cases run
  exact holds

theorem Halts.get : Halts allowed (get : Prog ε σ σ) :=
  fun _ _ _ run => nomatch run

theorem Halts.modify {update : σ → σ} : Halts allowed (modify update : Prog ε σ Unit) :=
  fun _ _ _ run => nomatch run

theorem Halts.step {transform : σ → α × σ} : Halts allowed (step transform : Prog ε σ α) :=
  fun _ _ _ run => nomatch run

theorem Halts.bind {program : Prog ε σ α} {next : α → Prog ε σ β}
    (first : Halts allowed program) (second : ∀ value, Halts allowed (next value)) :
    Halts allowed (program >>= next) := by
  intro state reason reached run
  rw [bind_apply] at run
  cases begins : program state with
  | ok value between =>
      rw [begins] at run
      exact second value between reason reached run
  | halt earlier between =>
      rw [begins] at run
      cases run
      exact first state _ _ begins

theorem Halts.ite {condition : Prop} [Decidable condition] {yes no : Prog ε σ α}
    (first : Halts allowed yes) (second : Halts allowed no) :
    Halts allowed (if condition then yes else no) := by
  split
  · exact first
  · exact second

end Reasons

section Triples

/-- Total correctness: started in a state with the precondition, the program
returns and the postcondition holds. -/
def Returns (pre : σ → Prop) (program : Prog ε σ α) (post : α → σ → Prop) : Prop :=
  ∀ state, pre state → ∃ value reached, program state = .ok value reached ∧
    post value reached

/-- How a run from a state with the precondition ends: with the postcondition if
it returns, and in a state with the property `stop` if it halts. -/
def Ends (pre : σ → Prop) (program : Prog ε σ α) (post : α → σ → Prop)
    (stop : σ → Prop) : Prop :=
  ∀ state, pre state →
    match program state with
    | .ok value reached => post value reached
    | .halt _ reached => stop reached

/-- Correctness up to halts: a run that returns has the postcondition, and only
if `stuck` holds can a run halt.  With `True` this is partial correctness, with
`False` it is total correctness. -/
def Runs (stuck : Prop) (pre : σ → Prop) (program : Prog ε σ α)
    (post : α → σ → Prop) : Prop :=
  Ends pre program post fun _ => stuck

variable {pre : σ → Prop} {program : Prog ε σ α} {next : α → Prog ε σ β}
  {middle : α → σ → Prop} {post : β → σ → Prop}

theorem Returns.bind (first : Returns pre program middle)
    (second : ∀ value, Returns (middle value) (next value) post) :
    Returns pre (program >>= next) post := by
  intro state holds
  obtain ⟨value, between, run, known⟩ := first state holds
  obtain ⟨result, reached, runNext, knownNext⟩ := second value between known
  exact ⟨result, reached, (bind_ok run next).trans runNext, knownNext⟩

/-- Sequencing after a program that only reads a value known beforehand. -/
theorem Returns.bind_read (value : α)
    (run : ∀ state, pre state → program state = .ok value state)
    (second : Returns pre (next value) post) :
    Returns pre (program >>= next) post := by
  intro state holds
  rw [bind_ok (run state holds)]
  exact second state holds

theorem Returns.ret {post : α → σ → Prop} {value : α}
    (holds : ∀ state, pre state → post value state) :
    Returns pre (pure value : Prog ε σ α) post :=
  fun state known => ⟨value, state, rfl, holds state known⟩

theorem Returns.modify {update : σ → σ} {post : Unit → σ → Prop}
    (holds : ∀ state, pre state → post () (update state)) :
    Returns pre (modify update : Prog ε σ Unit) post :=
  fun state known => ⟨(), update state, rfl, holds state known⟩

theorem Returns.mono {weak : σ → Prop} {post strong : α → σ → Prop}
    (triple : Returns pre program strong) (before : ∀ state, weak state → pre state)
    (after : ∀ value state, strong value state → post value state) :
    Returns weak program post := by
  intro state holds
  obtain ⟨value, reached, run, known⟩ := triple state (before state holds)
  exact ⟨value, reached, run, after value reached known⟩

/-- Runs of the program from states with the precondition come to run the last
program `last` in a state with the postcondition. -/
def Leads (pre : σ → Prop) (program : Prog ε σ β) (reach : σ → Prop)
    (last : Prog ε σ β) : Prop :=
  ∀ state, pre state → ∃ reached, reach reached ∧ program state = last reached

theorem Leads.last {reach : σ → Prop} {last : Prog ε σ β} : Leads reach last reach last :=
  fun state holds => ⟨state, holds, rfl⟩

theorem Leads.bind {reach : σ → Prop} {last : Prog ε σ β}
    (first : Returns pre program middle)
    (second : ∀ value, Leads (middle value) (next value) reach last) :
    Leads pre (program >>= next) reach last := by
  intro state holds
  obtain ⟨value, between, run, known⟩ := first state holds
  obtain ⟨reached, knownNext, runNext⟩ := second value between known
  exact ⟨reached, knownNext, (bind_ok run next).trans runNext⟩

theorem Leads.bind_read {reach : σ → Prop} {last : Prog ε σ β} (value : α)
    (run : ∀ state, pre state → program state = .ok value state)
    (second : Leads pre (next value) reach last) :
    Leads pre (program >>= next) reach last := by
  intro state holds
  obtain ⟨reached, known, runNext⟩ := second state holds
  exact ⟨reached, known, (bind_ok (run state holds) next).trans runNext⟩

theorem Leads.weaken {weak reach : σ → Prop} {program last : Prog ε σ β}
    (leads : Leads pre program reach last) (before : ∀ state, weak state → pre state) :
    Leads weak program reach last :=
  fun state holds => leads state (before state holds)

variable {stuck : Prop}

theorem Returns.runs {post : α → σ → Prop} (triple : Returns pre program post) :
    Runs stuck pre program post := by
  intro state holds
  obtain ⟨value, reached, run, known⟩ := triple state holds
  rw [run]
  exact known

theorem Runs.returns {post : α → σ → Prop} (triple : Runs False pre program post) :
    Returns pre program post := by
  intro state holds
  have outcome := triple state holds
  cases run : program state with
  | ok value reached =>
      rw [run] at outcome
      exact ⟨value, reached, rfl, outcome⟩
  | halt reason reached =>
      rw [run] at outcome
      exact outcome.elim

/-- What is known about a run that returned. -/
theorem Runs.of_ok {post : α → σ → Prop} (triple : Runs stuck pre program post)
    {state reached : σ} {value : α} (holds : pre state)
    (run : program state = .ok value reached) : post value reached := by
  have outcome := triple state holds
  rw [run] at outcome
  exact outcome

theorem Returns.of_ok {post : α → σ → Prop} (triple : Returns pre program post)
    {state reached : σ} {value : α} (holds : pre state)
    (run : program state = .ok value reached) : post value reached := by
  have total : Runs False pre program post := triple.runs
  exact total.of_ok holds run

theorem Ends.bind {stop : σ → Prop} (first : Ends pre program middle stop)
    (second : ∀ value, Ends (middle value) (next value) post stop) :
    Ends pre (program >>= next) post stop := by
  intro state holds
  have outcome := first state holds
  rw [bind_apply]
  cases run : program state with
  | ok value reached =>
      rw [run] at outcome
      exact second value reached outcome
  | halt reason reached =>
      rw [run] at outcome
      exact outcome

theorem Ends.ret {post : α → σ → Prop} {stop : σ → Prop} {value : α}
    (holds : ∀ state, pre state → post value state) :
    Ends pre (pure value : Prog ε σ α) post stop :=
  holds

theorem Ends.ite {condition : Prop} [Decidable condition] {yes no : Prog ε σ α}
    {post : α → σ → Prop} {stop : σ → Prop}
    (first : condition → Ends pre yes post stop)
    (second : ¬ condition → Ends pre no post stop) :
    Ends pre (if condition then yes else no) post stop := by
  split
  · exact first ‹_›
  · exact second ‹_›

theorem Ends.mono {weak : σ → Prop} {post strong : α → σ → Prop} {stop halted : σ → Prop}
    (triple : Ends pre program strong halted) (before : ∀ state, weak state → pre state)
    (after : ∀ value state, strong value state → post value state)
    (stopped : ∀ state, halted state → stop state) :
    Ends weak program post stop := by
  intro state holds
  have outcome := triple state (before state holds)
  cases run : program state with
  | ok value reached =>
      rw [run] at outcome
      exact after value reached outcome
  | halt reason reached =>
      rw [run] at outcome
      exact stopped reached outcome

/-- What holds of the state in which a run ends, however it ends. -/
theorem Ends.state {holds : σ → Prop} (triple : Ends pre program (fun _ => holds) holds)
    {state : σ} (known : pre state) : holds (program state).state := by
  have outcome := triple state known
  cases run : program state with
  | ok value reached =>
      rw [run] at outcome
      exact outcome
  | halt reason reached =>
      rw [run] at outcome
      exact outcome

/-- A fact in the precondition that does not mention the state. -/
theorem Ends.assume {fact : Prop} {post : α → σ → Prop} {stop : σ → Prop}
    (triple : fact → Ends pre program post stop) :
    Ends (fun state => fact ∧ pre state) program post stop :=
  fun state holds => triple holds.1 state holds.2

/-- A property carried along all steps of a program holds where it ends. -/
theorem Steps.ends {R : σ → σ → Prop} (steps : Steps R program) {holds : σ → Prop}
    (carried : ∀ state reached, pre state → R state reached → holds reached) :
    Ends pre program (fun _ => holds) holds := by
  intro state known
  have step := steps state
  cases run : program state with
  | ok value reached =>
      rw [run] at step
      exact carried state reached known step
  | halt reason reached =>
      rw [run] at step
      exact carried state reached known step

/-- Nothing is known about the run of an arbitrary program. -/
theorem Runs.any : Runs True pre program (fun _ _ => True) := by
  intro state _
  cases program state with
  | ok value reached => trivial
  | halt reason reached => trivial

theorem Runs.bind (first : Runs stuck pre program middle)
    (second : ∀ value, Runs stuck (middle value) (next value) post) :
    Runs stuck pre (program >>= next) post :=
  Ends.bind first second

/-- Sequencing after a program whose value is known beforehand. -/
theorem Runs.bind_value {value : α} {between : σ → Prop}
    (first : Runs stuck pre program fun result state => result = value ∧ between state)
    (second : Runs stuck between (next value) post) :
    Runs stuck pre (program >>= next) post := by
  refine first.bind fun result state holds => ?_
  obtain ⟨rfl, holds⟩ := holds
  exact second state holds

theorem Runs.bind_read (value : α)
    (run : ∀ state, pre state → program state = .ok value state)
    (second : Runs stuck pre (next value) post) :
    Runs stuck pre (program >>= next) post := by
  intro state holds
  rw [bind_ok (run state holds)]
  exact second state holds

theorem Runs.ret {post : α → σ → Prop} {value : α}
    (holds : ∀ state, pre state → post value state) :
    Runs stuck pre (pure value : Prog ε σ α) post :=
  holds

theorem Runs.get : Runs stuck pre (get : Prog ε σ σ) (fun _ => pre) :=
  fun _ holds => holds

theorem Runs.halt {post : α → σ → Prop} {reason : ε} (allowed : stuck) :
    Runs stuck pre (halt reason : Prog ε σ α) post :=
  fun _ _ => allowed

theorem Runs.modify {update : σ → σ} {post : Unit → σ → Prop}
    (holds : ∀ state, pre state → post () (update state)) :
    Runs stuck pre (modify update : Prog ε σ Unit) post :=
  holds

theorem Runs.ite {condition : Prop} [Decidable condition] {yes no : Prog ε σ α}
    {post : α → σ → Prop} (first : condition → Runs stuck pre yes post)
    (second : ¬ condition → Runs stuck pre no post) :
    Runs stuck pre (if condition then yes else no) post :=
  Ends.ite first second

theorem Runs.mono {weak : σ → Prop} {post strong : α → σ → Prop}
    (triple : Runs stuck pre program strong) (before : ∀ state, weak state → pre state)
    (after : ∀ value state, strong value state → post value state) :
    Runs stuck weak program post :=
  Ends.mono triple before after fun _ stuck => stuck

/-- Two triples of one program, the second of which may halt. -/
theorem Runs.both {post other : α → σ → Prop} (first : Runs stuck pre program post)
    (second : Runs True pre program other) :
    Runs True pre program fun value state => post value state ∧ other value state := by
  intro state holds
  have one := first state holds
  have two := second state holds
  cases run : program state with
  | ok value reached =>
      rw [run] at one two
      exact ⟨one, two⟩
  | halt reason reached => trivial

/-- A fact about a part of the state that the program does not change. -/
theorem Preserves.runs {γ : Type} {part : σ → γ} (preserves : Preserves part program)
    (fact : γ → Prop) :
    Runs True (fun state => fact (part state)) program (fun _ state => fact (part state)) := by
  refine Ends.mono (Steps.ends preserves ?_) (fun _ holds => holds) (fun _ _ holds => holds)
    fun _ _ => trivial
  intro state reached holds same
  rw [same]
  exact holds

theorem Runs.assume {fact : Prop} {post : α → σ → Prop}
    (triple : fact → Runs stuck pre program post) :
    Runs stuck (fun state => fact ∧ pre state) program post :=
  Ends.assume triple

end Triples

section Agreement

/-- From states with the precondition the two programs run alike, and the postcondition
holds where they return. -/
def Agrees (pre : σ → Prop) (program other : Prog ε σ α) (post : α → σ → Prop) : Prop :=
  Runs True pre other post ∧ ∀ state, pre state → program state = other state

variable {pre : σ → Prop} {program other : Prog ε σ α} {middle : α → σ → Prop}
  {post : β → σ → Prop}

theorem Agrees.refl (runs : Runs True pre program middle) :
    Agrees pre program program middle :=
  ⟨runs, fun _ _ => rfl⟩

theorem Agrees.bind {next otherNext : α → Prog ε σ β} (first : Agrees pre program other middle)
    (second : ∀ value, Agrees (middle value) (next value) (otherNext value) post) :
    Agrees pre (program >>= next) (other >>= otherNext) post := by
  constructor
  · exact first.1.bind fun value => (second value).1
  · intro state holds
    rw [bind_apply, bind_apply, first.2 state holds]
    have known := first.1 state holds
    cases run : other state with
    | ok value reached =>
        rw [run] at known
        exact (second value).2 reached known
    | halt reason reached => rfl

theorem Agrees.bind_refl {next otherNext : α → Prog ε σ β}
    (first : Runs True pre program middle)
    (second : ∀ value, Agrees (middle value) (next value) (otherNext value) post) :
    Agrees pre (program >>= next) (program >>= otherNext) post :=
  (Agrees.refl first).bind second

theorem Agrees.ite {condition : Prop} [Decidable condition] {otherYes otherNo : Prog ε σ α}
    (first : condition → Agrees pre program otherYes middle)
    (second : ¬ condition → Agrees pre other otherNo middle) :
    Agrees pre (if condition then program else other)
      (if condition then otherYes else otherNo) middle := by
  split
  · exact first ‹_›
  · exact second ‹_›

/-- An early return that both programs share. -/
theorem Agrees.unless {condition : Prop} [Decidable condition] {value : α}
    (early : ∀ state, pre state → middle value state)
    (second : ¬ condition → Agrees pre program other middle) :
    Agrees pre (if condition then pure value else program)
      (if condition then pure value else other) middle :=
  Agrees.ite (fun _ => Agrees.refl (Runs.ret early)) second

theorem Agrees.assume {fact : Prop} (agrees : fact → Agrees pre program other middle) :
    Agrees (fun state => fact ∧ pre state) program other middle :=
  ⟨Runs.assume fun known => (agrees known).1,
    fun state holds => (agrees holds.1).2 state holds.2⟩

end Agreement

end Prog

end HaltingProgram
