import Sable.Terminal
import Sable.LinkedMachines

/-!
# Lines that the user types

The prompts of the boot flow read a passphrase into a block of the heap and
authorisation strings that are hashed at once.  Reading a line takes its
characters from the keyboard and leaves the link to the TPM, the session objects
and the rest of the heap alone.
-/

namespace Sable

open ByteMemory BigEndian HaltingProgram

section Lines

/-- The next line and the characters behind it.  The first character is skipped. -/
def typedLine (capacity : Nat) : List UInt8 → Option (List UInt8 × List UInt8)
  | [] => none
  | _ :: input =>
      let line := editLine capacity [] input
      if line.finished then some (line.text, input.drop line.taken) else none

/-- The lines that are typed one after the other. -/
def typedLines : List Nat → List UInt8 → Option (List (List UInt8))
  | [], _ => some []
  | capacity :: capacities, keys =>
      match typedLine capacity keys with
      | none => none
      | some (text, rest) => (typedLines capacities rest).map (text :: ·)

/-- The secret that an authorisation string stands for. -/
def authOf (line : List UInt8) : Block 20 :=
  if line = [] then Block.zero 20 else SecureHash.sha1 line

variable {capacity : Nat} {capacities : List Nat} {keys held input text rest : List UInt8}
  {texts : List (List UInt8)}

theorem typedLine_some (typed : typedLine capacity keys = some (text, rest)) :
    ∃ first input, keys = first :: input ∧ (editLine capacity [] input).finished = true ∧
      (editLine capacity [] input).text = text ∧
      input.drop (editLine capacity [] input).taken = rest := by
  cases keys with
  | nil => cases typed
  | cons first input =>
      rw [typedLine] at typed
      split at typed
      · rename_i finished
        cases typed
        exact ⟨first, input, rfl, finished, rfl, rfl⟩
      · cases typed

theorem typedLines_cons (typed : typedLines (capacity :: capacities) keys = some texts) :
    ∃ text rest more, typedLine capacity keys = some (text, rest) ∧
      typedLines capacities rest = some more ∧ texts = text :: more := by
  rw [typedLines] at typed
  cases line : typedLine capacity keys with
  | none =>
      rw [line] at typed
      cases typed
  | some found =>
      obtain ⟨text, rest⟩ := found
      rw [line] at typed
      obtain ⟨more, later, whole⟩ := Option.map_eq_some_iff.mp typed
      exact ⟨text, rest, more, rfl, later, whole.symm⟩

/-- The lines that are typed first. -/
theorem typedLines_take (typed : typedLines capacities keys = some texts) (count : Nat) :
    typedLines (capacities.take count) keys = some (texts.take count) := by
  induction capacities generalizing keys texts count with
  | nil =>
      cases typed
      rw [List.take_nil, List.take_nil]
      rfl
  | cons capacity capacities ih =>
      obtain ⟨text, rest, more, line, later, whole⟩ := typedLines_cons typed
      subst whole
      cases count with
      | zero => rfl
      | succ count =>
          rw [List.take_succ_cons, typedLines, line]
          dsimp only
          rw [ih later count]
          rfl

theorem length_typedLine (typed : typedLine capacity keys = some (text, rest)) :
    text.length ≤ capacity := by
  obtain ⟨first, input, -, -, rfl, -⟩ := typedLine_some typed
  exact length_editLine_le input (Nat.zero_le _)

/-- No zero gets into a line. -/
theorem zero_notMem_editLine (clean : 0 ∉ held) (input : List UInt8) :
    0 ∉ (editLine capacity held input).text := by
  induction input generalizing held with
  | nil => exact clean
  | cons c input ih =>
      rw [editLine]
      by_cases full : capacity ≤ held.length
      · rw [if_pos full]
        exact clean
      rw [if_neg full]
      by_cases ends : c = 0x0D
      · rw [if_pos ends]
        exact clean
      rw [if_neg ends]
      refine ih ?_
      rw [press]
      by_cases back : c = 0x08
      · rw [if_pos back]
        exact fun member => clean (List.dropLast_subset held member)
      rw [if_neg back]
      by_cases none : c = 0
      · rw [if_pos none]
        exact clean
      · rw [if_neg none]
        simp [clean, Ne.symm none]

theorem zero_notMem_typedLine (typed : typedLine capacity keys = some (text, rest)) :
    0 ∉ text := by
  obtain ⟨first, input, -, -, rfl, -⟩ := typedLine_some typed
  exact zero_notMem_editLine List.not_mem_nil input

end Lines

section Strings

variable {mem : Mem} {text : List UInt8}

/-- The string that ends with the first zero. -/
theorem cstringFrom_eq {fuel addr : Nat} (enough : text.length < fuel) (clean : 0 ∉ text)
    (content : read mem addr (text.length + 1) = text ++ [0]) :
    cstringFrom mem fuel addr = some text := by
  induction text generalizing fuel addr with
  | nil =>
      obtain ⟨fuel, rfl⟩ := Nat.exists_eq_add_of_lt enough
      have zero : mem addr = 0 := by simpa [read_succ] using content
      rw [List.length_nil, Nat.zero_add, cstringFrom, if_pos zero]
  | cons c text ih =>
      rw [List.length_cons] at enough
      obtain ⟨fuel, rfl⟩ : ∃ less, fuel = less + 1 := ⟨fuel - 1, by omega⟩
      rw [List.length_cons, read_succ, List.cons_append] at content
      obtain ⟨here, behind⟩ := List.cons.inj content
      obtain ⟨nonzero, clean⟩ := not_or.mp (List.mem_cons.not.mp clean)
      rw [cstringFrom, here, if_neg (Ne.symm nonzero), ih (by omega) clean behind]
      rfl

variable {σ : Type} {m : Machine σ}

theorem loadString_eq {ptr : UInt32} (short : text.length < 2 ^ 32) (clean : 0 ∉ text)
    (content : read m.mem ptr.toNat (text.length + 1) = text ++ [0]) :
    loadString ptr m = .ok text m := by
  have string : cstring m.mem ptr = some text := cstringFrom_eq short clean content
  rw [loadString, Prog.bind_get, string]
  rfl

end Strings

section Keyboard

variable {σ : Type} {m reached : Machine σ} {capacity : Nat} {keys text rest : List UInt8}

/-- Reading a line changes the keyboard; the log changes only if the line is shown. -/
theorem getStringLoop_preserves (strSize : Nat) (shown : Bool) (fuel : Nat) (str : Mem)
    (i : Nat) :
    Prog.Preserves (fun m : Machine σ =>
        { m with keys := [], log := if shown then [] else m.log })
      (getStringLoop strSize shown fuel str i) := by
  have taken : Prog.Preserves (fun m : Machine σ =>
      { m with keys := [], log := if shown then [] else m.log }) getchar := by
    intro m
    unfold getchar
    cases m.keys with
    | nil => rfl
    | cons key keys => rfl
  have echo (c : UInt8) {program : Boot σ (Mem × Nat)}
      (preserves : Prog.Preserves (fun m : Machine σ =>
        { m with keys := [], log := if shown then [] else m.log }) program) :
      Prog.Preserves (fun m : Machine σ =>
        { m with keys := [], log := if shown then [] else m.log })
        (if shown then outChar c >>= fun _ => program else program) := by
    cases shown with
    | false => exact preserves
    | true => exact Prog.Preserves.bind (fun _ => rfl) fun _ => preserves
  induction fuel generalizing str i with
  | zero => exact fun _ => rfl
  | succ fuel ih =>
      refine Prog.Preserves.ite (taken.bind fun c => ?_) fun _ => rfl
      refine Prog.Preserves.ite (fun _ => rfl) (Prog.Preserves.ite ?_ ?_)
      · exact Prog.Preserves.ite (echo c (ih _ _)) (ih _ _)
      · exact Prog.Preserves.ite (ih _ _) (echo c (ih _ _))

/-- The machine after a line has been read. -/
structure LineTaken (m : Machine σ) (rest : List UInt8) (reached : Machine σ) : Prop where
  rest_eq : { reached with keys := m.keys, log := m.log } = m
  keys_eq : reached.keys = rest

theorem getString_types (typed : typedLine capacity m.keys = some (text, rest)) (str : Mem)
    (shown : Bool) :
    ∃ str' reached, getString str capacity shown m = .ok (str', text.length) reached ∧
      read str' 0 (text.length + 1) = text ++ [0] ∧
      (∀ a, capacity + 1 ≤ a → str' a = str a) ∧ LineTaken m rest reached ∧
      (shown = false → reached.log = m.log ++ [.output [0x0A]]) := by
  obtain ⟨first, input, keys, finished, rfl, rfl⟩ := typedLine_some typed
  have reads := getString_reads str capacity shown keys
  rw [ReadsLine, if_pos finished] at reads
  obtain ⟨str', reached, run, content, zero, outside, unread⟩ := reads
  have last := run
  rw [getString, Prog.bind_ok (getchar_run keys), Prog.bind_get] at last
  obtain ⟨line, edited, loop, finish⟩ := Prog.bind_eq_ok.mp last
  have kept := (getStringLoop_preserves capacity shown _ str 0).eq_of_ok loop
  have ended : { edited with log := edited.log ++ [.output [0x0A]] } = reached :=
    congrArg Outcome.state finish
  refine ⟨_, _, run, ?_, outside, ⟨?_, unread⟩, fun hidden => ?_⟩
  · rw [read_add, content, read_succ, Nat.zero_add, zero, read_zero]
  · have same := congrArg (fun m' : Machine σ => { m' with keys := m.keys, log := m.log }) kept
    rw [← ended]
    exact same
  · subst hidden
    have log := congrArg Machine.log kept
    rw [← ended]
    exact congrArg (· ++ [Event.output [0x0A]]) log

/-- A line that has been read was finished. -/
theorem typedLine_of_ok {str : Mem} {shown : Bool} {ret : Mem × Nat}
    (run : getString str capacity shown m = .ok ret reached) :
    ∃ text rest, typedLine capacity m.keys = some (text, rest) := by
  cases keys : m.keys with
  | nil =>
      have stops : getchar m = .halt .blocked m := by
        rw [getchar, keys]
      rw [getString, Prog.bind_halt stops] at run
      cases run
  | cons first input =>
      have reads := getString_reads str capacity shown keys
      by_cases finished : (editLine capacity [] input).finished = true
      · rw [typedLine]
        simp only [finished, if_true]
        exact ⟨_, _, rfl⟩
      · rw [ReadsLine, if_neg finished] at reads
        obtain ⟨stopped, stops⟩ := reads
        rw [run] at stops
        cases stops

end Keyboard

section Prompts

variable {σ κ : Type} {device : TisDevice σ} {mmap : UInt32} {tpm : FifoTpm device mmap κ}
  {area : HeapArea} {core : κ} {used : Nat} {contents : UInt32 → Option (List UInt8)}
  {store : Store} {m reached : Machine σ} {capacity : Nat} {text rest : List UInt8}

/-- Something is shown. -/
def Machine.showing (m : Machine σ) (value : List UInt8) : Machine σ :=
  { m with log := m.log ++ [.output value] }

theorem outString_eq (value : List UInt8) (m : Machine σ) :
    outString value m = .ok () (m.showing value) :=
  rfl

theorem Linked.showing (linked : Linked tpm area core used contents store m)
    (value : List UInt8) : Linked tpm area core used contents store (m.showing value) :=
  linked.withLog _

theorem Linked.lineTaken (linked : Linked tpm area core used contents store m)
    (taken : LineTaken m rest reached) :
    Linked tpm area core used contents { store with keys := rest } reached := by
  have same := taken.rest_eq
  have locality := congrArg Machine.tisLocality same
  have world := congrArg Machine.world same
  have heap := congrArg Machine.heap same
  have mem := congrArg Machine.mem same
  have objects := congrArg Machine.sessionAt same
  have extensions := congrArg Machine.osapAt same
  have slots := congrArg Machine.sessions same
  dsimp only at locality world heap mem objects extensions slots
  refine ⟨locality.trans linked.locality, by rw [world, linked.idle], heap.trans linked.heap,
    by rw [mem]; exact linked.tracks, ?_⟩
  rw [← linked.store_eq, Machine.store, Machine.store, objects, extensions, slots, taken.keys_eq]

/-- What a command leaves of a machine while it hashes. -/
instance hashFree_locals (base : Machine σ) :
    HashFree fun m : Machine σ => { m with locals := base.locals } = base where
  withHashes := fun _ _ _ same => same

/-- The digest of a line. -/
theorem hashLine_runs (m : Machine σ) {line : List UInt8} (short : line.length < 2 ^ 29) :
    ∃ reached, (do
        sha1InitLocal
        let exception ← sha1Local line
        if exception ≠ Error.none then return Result.error exception default
        sha1FinishLocal
        let hash ← sctxHash
        return Result.ok hash) m = .ok (.ok (SecureHash.sha1 line)) reached ∧
      { reached with locals := m.locals } = m := by
  let part : Machine σ → Prop := fun reached => { reached with locals := m.locals } = m
  have hashed : Prog.Returns part (do
      sha1InitLocal
      let exception ← sha1Local line
      if exception ≠ Error.none then return Result.error exception default
      sha1FinishLocal
      let hash ← sctxHash
      return Result.ok hash) (fun ret reached =>
        ret = .ok (SecureHash.sha1 line) ∧ part reached) := by
    refine Prog.Returns.bind sha1InitLocal_holds fun _ => ?_
    refine Prog.Returns.bind (sha1Local_holds (by omega)) fun exception => ?_
    rintro reached ⟨success, holds, absorbed⟩
    rw [if_neg (not_not_intro (success.mpr short))]
    have finish : Prog.Returns (Holding part fun sctx _ => Absorbed sctx line) sha1FinishLocal
        (fun _ => Holding part fun sctx _ => sctx.hash = SecureHash.sha1 line) :=
      sha1FinishLocal_holds short
    refine Prog.Returns.bind finish (fun _ => ?_) reached ⟨holds, absorbed short⟩
    refine Prog.Returns.bind (Prog.Runs.returns sctxHash_runs) fun hash => ?_
    exact Prog.Returns.ret fun _ ⟨same, kept⟩ => ⟨congrArg Result.ok same, kept⟩
  obtain ⟨ret, reached, run, rfl, same⟩ := hashed m rfl
  exact ⟨reached, run, same⟩

/-- What `getAuthdata` does once the line is read. -/
theorem getAuthdata_reads (linked : Linked tpm area core used contents store m)
    (typed : typedLine authdataStrSize store.keys = some (text, rest)) :
    ∃ str lineRead, getString (fun _ => 0) authdataStrSize false m =
        .ok (str, text.length) lineRead ∧
      read str 0 text.length = text ∧
      Linked tpm area core used contents { store with keys := rest } lineRead ∧
      lineRead.log = m.log ++ [.output [0x0A]] := by
  have keys : m.keys = store.keys := congrArg Store.keys linked.store_eq
  rw [← keys] at typed
  obtain ⟨str, lineRead, run, content, -, taken, log⟩ :=
    getString_types typed (fun _ => 0) false
  refine ⟨str, lineRead, run, ?_, linked.lineTaken taken, log rfl⟩
  rw [← take_read str 0 (text.length + 1) _ (Nat.le_succ _), content, List.take_left' rfl]

/-- An authorisation string that leaves room for its terminator is read and hashed. -/
theorem getAuthdata_types (linked : Linked tpm area core used contents store m)
    (typed : typedLine authdataStrSize store.keys = some (text, rest))
    (short : text.length < authdataStrSize) :
    ∃ reached, getAuthdata m = .ok (.ok (authOf text)) reached ∧
      Linked tpm area core used contents { store with keys := rest } reached ∧
      reached.log = m.log ++ [.output [0x0A]] := by
  obtain ⟨str, lineRead, run, line, tracked, log⟩ := getAuthdata_reads linked typed
  have size : authdataStrSize = 64 := rfl
  rw [getAuthdata, Prog.bind_ok run]
  dsimp only
  rw [if_neg (Nat.not_le_of_lt short)]
  by_cases empty : text = []
  · rw [authOf, if_pos empty, empty, if_neg (by simp)]
    exact ⟨_, rfl, tracked, log⟩
  · obtain ⟨reached, hashes, same⟩ := hashLine_runs lineRead (by omega : text.length < 2 ^ 29)
    rw [authOf, if_neg empty, if_pos (List.length_pos_iff.mpr empty), line]
    refine ⟨reached, hashes, tracked.of_eq ?_, ?_⟩
    · rw [← same]
    · have kept := congrArg Machine.log same
      exact Eq.trans kept log

/-- A string that fills its buffer is ended behind it. -/
theorem getAuthdata_overruns (linked : Linked tpm area core used contents store m)
    (typed : typedLine authdataStrSize store.keys = some (text, rest))
    (full : authdataStrSize ≤ text.length) :
    ∃ reached, getAuthdata m = .halt .overrun reached := by
  obtain ⟨str, lineRead, run, -⟩ := getAuthdata_reads linked typed
  refine ⟨lineRead, ?_⟩
  rw [getAuthdata, Prog.bind_ok run]
  dsimp only
  rw [if_pos full]
  rfl

/-- An authorisation string that has been read, whatever it is. -/
theorem getAuthdata_takes (linked : Linked tpm area core used contents store m)
    {ret : Result (Block 20)} (run : getAuthdata m = .ok ret reached) :
    ∃ keys, Linked tpm area core used contents { store with keys := keys } reached := by
  have keys : m.keys = store.keys := congrArg Store.keys linked.store_eq
  have line := run
  rw [getAuthdata] at line
  obtain ⟨str, state, reads, -⟩ := Prog.bind_eq_ok.mp line
  obtain ⟨text, rest, typed⟩ := typedLine_of_ok reads
  rw [keys] at typed
  obtain short | full := Nat.lt_or_ge text.length authdataStrSize
  · obtain ⟨_, types, taken, -⟩ := getAuthdata_types linked typed short
    rw [run] at types
    cases types
    exact ⟨rest, taken⟩
  · obtain ⟨_, overruns⟩ := getAuthdata_overruns linked typed full
    rw [run] at overruns
    cases overruns

/-- A line is read into a block of the heap, with a zero behind it. -/
theorem getStringAt_types (linked : Linked tpm area core used contents store m)
    {ptr : UInt32} {bytes : List UInt8} (tracked : contents ptr = some bytes)
    (size : bytes.length = capacity + 1)
    (typed : typedLine capacity store.keys = some (text, rest)) (shown : Bool) :
    ∃ filled reached, getStringAt ptr capacity shown m = .ok text.length reached ∧
      filled.take (text.length + 1) = text ++ [0] ∧ filled.length = capacity + 1 ∧
      Linked tpm area core used (Function.update contents ptr (some filled))
        { store with keys := rest } reached := by
  have keys : m.keys = store.keys := congrArg Store.keys linked.store_eq
  rw [← keys] at typed
  obtain ⟨str, lineRead, run, content, outside, taken, -⟩ :=
    getString_types typed (fun a => m.mem (ptr.toNat + a)) shown
  have length := length_typedLine typed
  have lineLinked := linked.lineTaken taken
  have memory : lineRead.mem = m.mem := by
    have same := congrArg Machine.mem taken.rest_eq
    exact same
  let stored : Mem := fun a => if ptr.toNat ≤ a then str (a - ptr.toNat) else lineRead.mem a
  have inside (len : Nat) : read stored ptr.toNat len = read str 0 len := by
    refine List.map_congr_left fun i _ => ?_
    dsimp only [stored]
    rw [if_pos (Nat.le_add_right _ _), Nat.add_sub_cancel_left, Nat.zero_add]
  have agree (a : Nat) (beyond : a < ptr.toNat ∨ ptr.toNat + bytes.length ≤ a) :
      stored a = lineRead.mem a := by
    dsimp only [stored]
    split
    · rename_i lower
      rw [outside _ (by omega), memory, Nat.add_sub_of_le lower]
    · rfl
  have changed := lineLinked.tracks.change tracked agree
  rw [size, inside] at changed
  refine ⟨read str 0 (capacity + 1), { lineRead with mem := stored }, ?_, ?_, length_read ..,
    lineLinked.locality, lineLinked.idle, lineLinked.heap, changed, lineLinked.store_eq⟩
  · rw [getStringAt, Prog.bind_get, Prog.bind_ok run]
    dsimp only
    rw [if_neg (linked.tracks.nonNull tracked), Prog.bind_modify, Prog.pure_apply]
  · rw [take_read _ _ _ _ (by omega), content]

end Prompts

end Sable
