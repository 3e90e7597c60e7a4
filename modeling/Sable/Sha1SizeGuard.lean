import Mathlib.Algebra.GroupWithZero.Nat
import Sable.Sha1Streaming

/-!
# The size guard of the streaming SHA-1

Calls of `sha1` with any 32-bit counts on one context.  As long as the sum of
the count and the buffered index does not wrap around, every write stays in the
buffer and the call that reaches 2^29 bytes is refused at the latest; a sum that
wraps around makes the last copy run out of the buffer.
-/

namespace Sable

open ByteMemory BigEndian

/-- The bytes written through `ctx->buffer` by the block loop of `sha1`, as offsets with
lengths: each round copies into the rest of the buffer, and `process_block` rewrites the
sixty-four bytes and the scratch word behind them. -/
def sha1LoopWrites : Nat → Sha1Context → List UInt8 → List (Nat × Nat)
  | 0, _, _ => []
  | fuel + 1, ctx, value =>
      if 64 ≤ (value.length + ctx.index) % 2 ^ 32 then
        let count := 64 - ctx.index
        let ctx := processBlock (ctx.copyIn (value.take count))
        let ctx := { ctx with blocks := (ctx.blocks + 1) % 2 ^ 32 }
        let writes := [(ctx.index, (value.take count).length), (0, 68)]
        if 2 ^ 23 ≤ ctx.blocks then writes
        else writes ++ sha1LoopWrites fuel { ctx with index := 0 } (value.drop count)
      else []

/-- The bytes written through `ctx->buffer` by a call of `sha1`. -/
def sha1Writes (ctx : Sha1Context) (value : List UInt8) : List (Nat × Nat) :=
  let loop := sha1LoopWrites (value.length + 1) ctx value
  let ret := sha1Loop (value.length + 1) ctx value
  if ret.exception = .none then loop ++ [(ret.value.1.index, ret.value.2.length)] else loop

/-- A call of `sha1`: the context before it and the bytes it is given. -/
structure Sha1Call where
  before : Sha1Context
  value : List UInt8

namespace Sha1Call

def result (call : Sha1Call) : Result Sha1Context :=
  sha1 call.before call.value

def writes (call : Sha1Call) : List (Nat × Nat) :=
  sha1Writes call.before call.value

/-- The sum that the loop condition of `sha1` starts with does not wrap around. -/
def Fits (call : Sha1Call) : Prop :=
  call.before.index + call.value.length < 2 ^ 32

instance (call : Sha1Call) : Decidable call.Fits :=
  inferInstanceAs (Decidable (_ < _))

end Sha1Call

/-- The calls of a sequence, each on the context that the one before has left. -/
def sha1Calls : Sha1Context → List (List UInt8) → List Sha1Call
  | _, [] => []
  | ctx, value :: values => ⟨ctx, value⟩ :: sha1Calls (sha1 ctx value).value values

/-- The number of bytes given to the calls. -/
def totalBytes (calls : List Sha1Call) : Nat :=
  (calls.map fun call => call.value.length).sum

/-- What the size guard is for: calls that reach 2^29 bytes are refused, writes stay in the
buffer, and a call that succeeds leaves an index below 64. -/
structure SizeGuarded (calls : List Sha1Call) : Prop where
  refused : ∀ count, 2 ^ 29 ≤ totalBytes (calls.take count) →
    ∃ call ∈ calls.take count, call.result.exception = .sha1DataSize
  inside : ∀ call ∈ calls, ∀ range ∈ call.writes, range.1 + range.2 ≤ 68
  index : ∀ call ∈ calls, call.result.exception = .none → call.result.value.index < 64

section Loop

/-- The context after a round of the block loop, before its index is reset. -/
def fullBlock (ctx : Sha1Context) (value : List UInt8) : Sha1Context :=
  { processBlock (ctx.copyIn (value.take (64 - ctx.index))) with
    blocks := (ctx.blocks + 1) % 2 ^ 32 }

theorem sha1Loop_succ (fuel : Nat) (ctx : Sha1Context) (value : List UInt8) :
    sha1Loop (fuel + 1) ctx value =
      if 64 ≤ (value.length + ctx.index) % 2 ^ 32 then
        if 2 ^ 23 ≤ (ctx.blocks + 1) % 2 ^ 32 then
          .error .sha1DataSize (fullBlock ctx value, value)
        else sha1Loop fuel { fullBlock ctx value with index := 0 }
          (value.drop (64 - ctx.index))
      else .ok (ctx, value) :=
  rfl

theorem sha1LoopWrites_succ (fuel : Nat) (ctx : Sha1Context) (value : List UInt8) :
    sha1LoopWrites (fuel + 1) ctx value =
      if 64 ≤ (value.length + ctx.index) % 2 ^ 32 then
        if 2 ^ 23 ≤ (ctx.blocks + 1) % 2 ^ 32 then
          [(ctx.index, (value.take (64 - ctx.index)).length), (0, 68)]
        else [(ctx.index, (value.take (64 - ctx.index)).length), (0, 68)] ++
          sha1LoopWrites fuel { fullBlock ctx value with index := 0 }
            (value.drop (64 - ctx.index))
      else [] :=
  rfl

theorem fullBlock_buffer (ctx : Sha1Context) (value : List UInt8) {k : Nat}
    (copied : k < ctx.index ∨ ctx.index + (value.take (64 - ctx.index)).length ≤ k)
    (processed : 68 ≤ k) : (fullBlock ctx value).buffer k = ctx.buffer k := by
  have stored : (fullBlock ctx value).buffer k =
      write ctx.buffer ctx.index (value.take (64 - ctx.index)) k :=
    if_neg (by omega)
  rw [stored, write_outside _ copied]

/-- Bytes outside of the recorded writes are unchanged. -/
theorem sha1Loop_buffer (fuel : Nat) (ctx : Sha1Context) (value : List UInt8) {k : Nat}
    (outside : ∀ range ∈ sha1LoopWrites fuel ctx value, k < range.1 ∨ range.1 + range.2 ≤ k) :
    (sha1Loop fuel ctx value).value.1.buffer k = ctx.buffer k := by
  induction fuel generalizing ctx value with
  | zero => rfl
  | succ fuel ih =>
      rw [sha1LoopWrites_succ] at outside
      rw [sha1Loop_succ]
      by_cases large : 64 ≤ (value.length + ctx.index) % 2 ^ 32
      swap
      · rw [if_neg large]
        rfl
      rw [if_pos large] at outside ⊢
      have block : (fullBlock ctx value).buffer k = ctx.buffer k := by
        have copied := outside (ctx.index, (value.take (64 - ctx.index)).length)
          (by split <;> simp)
        have scratch := outside (0, 68) (by split <;> simp)
        exact fullBlock_buffer ctx value copied (by omega)
      by_cases full : 2 ^ 23 ≤ (ctx.blocks + 1) % 2 ^ 32
      · rw [if_pos full]
        exact block
      · rw [if_neg full] at outside ⊢
        rw [ih]
        · exact block
        · intro range member
          exact outside range (List.mem_append_right _ member)

theorem sha1_buffer (ctx : Sha1Context) (value : List UInt8) {k : Nat}
    (outside : ∀ range ∈ sha1Writes ctx value, k < range.1 ∨ range.1 + range.2 ≤ k) :
    (sha1 ctx value).value.buffer k = ctx.buffer k := by
  rw [sha1Writes] at outside
  rw [sha1]
  by_cases success : (sha1Loop (value.length + 1) ctx value).exception = .none
  · rw [if_pos success] at outside
    have loop := sha1Loop_buffer (value.length + 1) ctx value fun range member =>
      outside range (List.mem_append_left _ member)
    have last := outside _ (List.mem_append_right _ List.mem_cons_self)
    simp only [if_pos success]
    change write _ _ _ k = _
    rw [write_outside _ last, loop]
  · rw [if_neg success] at outside
    simp only [if_neg success]
    exact sha1Loop_buffer (value.length + 1) ctx value outside

/-- The counters after the block loop. -/
structure LoopCounted (ctx : Sha1Context) (value : List UInt8)
    (ret : Result (Sha1Context × List UInt8)) : Prop where
  success : ret.exception = .none → ret.value.1.index + ret.value.2.length < 64
  blocks : ret.exception = .none → ctx.blocks < 2 ^ 23 → ret.value.1.blocks < 2 ^ 23 ∧
    64 * ret.value.1.blocks + ret.value.1.index + ret.value.2.length =
      64 * ctx.blocks + ctx.index + value.length
  failure : ret.exception ≠ .none → ret.exception = .sha1DataSize ∧ ret.value.1.index < 64

theorem sha1Loop_counted (fuel : Nat) (ctx : Sha1Context) (value : List UInt8)
    (room : ctx.index < 64) (enough : value.length < fuel)
    (fits : ctx.index + value.length < 2 ^ 32) :
    LoopCounted ctx value (sha1Loop fuel ctx value) ∧
      ∀ range ∈ sha1LoopWrites fuel ctx value, range.1 + range.2 ≤ 68 := by
  induction fuel generalizing ctx value with
  | zero => omega
  | succ fuel ih =>
      have copied : (value.take (64 - ctx.index)).length ≤ 64 - ctx.index :=
        List.length_take_le _ _
      have rest : (value.drop (64 - ctx.index)).length = value.length - (64 - ctx.index) :=
        List.length_drop
      rw [sha1Loop_succ, sha1LoopWrites_succ, Nat.mod_eq_of_lt (by omega)]
      by_cases large : 64 ≤ value.length + ctx.index
      swap
      · rw [if_neg large, if_neg large]
        refine ⟨⟨fun _ => ?_, fun _ running => ⟨running, rfl⟩, by simp⟩, by simp⟩
        simp only [Result.value_ok]
        omega
      rw [if_pos large, if_pos large]
      have first : ∀ range ∈ [(ctx.index, (value.take (64 - ctx.index)).length), (0, 68)],
          range.1 + range.2 ≤ 68 := by
        intro range member
        simp only [List.mem_cons, List.not_mem_nil, or_false] at member
        rcases member with rfl | rfl
        · simp only
          omega
        · simp
      by_cases full : 2 ^ 23 ≤ (ctx.blocks + 1) % 2 ^ 32
      · rw [if_pos full, if_pos full]
        exact ⟨⟨by simp, by simp, fun _ => ⟨rfl, room⟩⟩, first⟩
      · rw [if_neg full, if_neg full]
        obtain ⟨counted, inside⟩ := ih { fullBlock ctx value with index := 0 }
          (value.drop (64 - ctx.index)) (by simp) (by omega) (by simp only; omega)
        refine ⟨⟨counted.success, fun success running => ?_, counted.failure⟩, ?_⟩
        · have blocks : (fullBlock ctx value).blocks = ctx.blocks + 1 :=
            Nat.mod_eq_of_lt (by omega)
          rw [Nat.mod_eq_of_lt (by omega)] at full
          obtain ⟨few, size⟩ := counted.blocks success (by simp only [blocks]; omega)
          refine ⟨few, size.trans ?_⟩
          simp only [blocks]
          omega
        · intro range member
          rcases List.mem_append.mp member with early | late
          · exact first range early
          · exact inside range late

/-- A call whose sum does not wrap around. -/
theorem sha1_counted {ctx : Sha1Context} {value : List UInt8} (room : ctx.index < 64)
    (fits : ctx.index + value.length < 2 ^ 32) :
    (∀ range ∈ sha1Writes ctx value, range.1 + range.2 ≤ 68) ∧
      (sha1 ctx value).value.index < 64 ∧
      ((sha1 ctx value).exception = .none ∨ (sha1 ctx value).exception = .sha1DataSize) ∧
      ((sha1 ctx value).exception = .none → ctx.blocks < 2 ^ 23 →
        (sha1 ctx value).value.blocks < 2 ^ 23 ∧
        64 * (sha1 ctx value).value.blocks + (sha1 ctx value).value.index =
          64 * ctx.blocks + ctx.index + value.length) := by
  obtain ⟨counted, inside⟩ := sha1Loop_counted (value.length + 1) ctx value room (by omega) fits
  rcases run : sha1Loop (value.length + 1) ctx value with ⟨exception, reached, rest⟩
  rw [run] at counted
  rw [sha1, sha1Writes, run]
  by_cases success : exception = .none
  · have short := counted.success success
    have blocks := counted.blocks success
    simp only at short blocks
    simp only [if_pos success, Result.value_ok]
    rw [Nat.mod_eq_of_lt (by omega)]
    refine ⟨?_, short, .inl rfl, fun _ running => ⟨(blocks running).1, ?_⟩⟩
    · intro range member
      rcases List.mem_append.mp member with early | late
      · exact inside range early
      · rw [List.mem_singleton] at late
        rw [late]
        simp only
        omega
    · rw [← (blocks running).2, Nat.add_assoc]
      rfl
  · obtain ⟨error, low⟩ := counted.failure success
    simp only [if_neg success]
    exact ⟨inside, low, .inr error, fun none => (success none).elim⟩

/-- A call whose sum wraps around copies all its bytes behind the index. -/
theorem sha1_wraps {ctx : Sha1Context} {value : List UInt8} (room : ctx.index < 64)
    (short : value.length < 2 ^ 32) (wraps : 2 ^ 32 ≤ ctx.index + value.length) :
    sha1 ctx value =
        .ok { ctx.copyIn value with index := ctx.index + value.length - 2 ^ 32 } ∧
      sha1Writes ctx value = [(ctx.index, value.length)] := by
  have sum : (value.length + ctx.index) % 2 ^ 32 = ctx.index + value.length - 2 ^ 32 := by
    omega
  have loop : sha1Loop (value.length + 1) ctx value = .ok (ctx, value) := by
    rw [sha1Loop_succ, if_neg (by omega)]
  have writes : sha1LoopWrites (value.length + 1) ctx value = [] := by
    rw [sha1LoopWrites_succ, if_neg (by omega)]
  constructor
  · rw [sha1, loop]
    simp only [Result.value_ok, Result.exception_ok, if_true]
    rw [Nat.add_comm ctx.index, sum, Nat.add_comm value.length]
  · rw [sha1Writes, loop, writes]
    rfl

end Loop

section Sequences

theorem sha1Calls_inside {ctx : Sha1Context} {values : List (List UInt8)}
    (room : ctx.index < 64) (fit : ∀ call ∈ sha1Calls ctx values, call.Fits) :
    ∀ call ∈ sha1Calls ctx values, call.before.index < 64 := by
  induction values generalizing ctx with
  | nil => simp [sha1Calls]
  | cons value values ih =>
      have first := fit ⟨ctx, value⟩ List.mem_cons_self
      have next := (sha1_counted room first).2.1
      intro call member
      rcases List.mem_cons.mp member with rfl | later
      · exact room
      · exact ih next (fun call member => fit call (List.mem_cons_of_mem _ member)) call later

/-- Calls that all succeed count their bytes. -/
theorem sha1Calls_total {ctx : Sha1Context} {values : List (List UInt8)} (count : Nat)
    (room : ctx.index < 64) (running : ctx.blocks < 2 ^ 23)
    (fit : ∀ call ∈ sha1Calls ctx values, call.Fits)
    (succeed : ∀ call ∈ (sha1Calls ctx values).take count,
      call.result.exception ≠ .sha1DataSize) :
    64 * ctx.blocks + ctx.index + totalBytes ((sha1Calls ctx values).take count) < 2 ^ 29 := by
  induction values generalizing ctx count with
  | nil =>
      simp only [sha1Calls, List.take_nil, totalBytes, List.map_nil, List.sum_nil]
      omega
  | cons value values ih =>
      cases count with
      | zero =>
          simp only [List.take_zero, totalBytes, List.map_nil, List.sum_nil]
          omega
      | succ count =>
          rw [sha1Calls] at fit succeed ⊢
          rw [List.take_succ_cons] at succeed ⊢
          have first : ctx.index + value.length < 2 ^ 32 :=
            fit ⟨ctx, value⟩ List.mem_cons_self
          obtain ⟨-, low, result, counted⟩ := sha1_counted room first
          have success : (sha1 ctx value).exception = .none :=
            result.resolve_right (succeed ⟨ctx, value⟩ List.mem_cons_self)
          obtain ⟨few, size⟩ := counted success running
          have rest := ih count low few
            (fun call member => fit call (List.mem_cons_of_mem _ member))
            fun call member => succeed call (List.mem_cons_of_mem _ member)
          have split : totalBytes (⟨ctx, value⟩ ::
              (sha1Calls (sha1 ctx value).value values).take count) =
                value.length + totalBytes ((sha1Calls (sha1 ctx value).value values).take count) :=
            List.sum_cons
          rw [split]
          omega

/-- If no write leaves the buffer then no sum has wrapped around. -/
theorem sha1Calls_fit {ctx : Sha1Context} {values : List (List UInt8)}
    (room : ctx.index < 64) (short : ∀ value ∈ values, value.length < 2 ^ 32)
    (inside : ∀ call ∈ sha1Calls ctx values, ∀ range ∈ call.writes, range.1 + range.2 ≤ 68) :
    ∀ call ∈ sha1Calls ctx values, call.Fits := by
  induction values generalizing ctx with
  | nil => simp [sha1Calls]
  | cons value values ih =>
      have first : Sha1Call.Fits ⟨ctx, value⟩ := by
        by_contra wraps
        have wraps : 2 ^ 32 ≤ ctx.index + value.length := Nat.le_of_not_lt wraps
        have writes := (sha1_wraps room (short value List.mem_cons_self) wraps).2
        have far := inside ⟨ctx, value⟩ List.mem_cons_self (ctx.index, value.length)
          (by rw [Sha1Call.writes, writes]; exact List.mem_cons_self)
        simp only at far
        omega
      intro call member
      rcases List.mem_cons.mp member with rfl | later
      · exact first
      · exact ih (sha1_counted room first).2.1
          (fun value member => short value (List.mem_cons_of_mem _ member))
          (fun call member => inside call (List.mem_cons_of_mem _ member)) call later

end Sequences

/-- Calls of `sha1` on an initialised context are guarded exactly if none of their sums wraps
around. -/
theorem sha1Calls_guarded_iff (ctx : Sha1Context) (values : List (List UInt8))
    (short : ∀ value ∈ values, value.length < 2 ^ 32) :
    SizeGuarded (sha1Calls (sha1Init ctx) values) ↔
      ∀ call ∈ sha1Calls (sha1Init ctx) values, call.Fits := by
  have room : (sha1Init ctx).index < 64 := Nat.zero_lt_succ 63
  have running : (sha1Init ctx).blocks < 2 ^ 23 := Nat.two_pow_pos 23
  constructor
  · intro guarded
    exact sha1Calls_fit room short guarded.inside
  · intro fit
    have low := sha1Calls_inside room fit
    refine ⟨fun count large => ?_, fun call member => ?_, fun call member _ => ?_⟩
    · by_contra accepted
      push Not at accepted
      have total := sha1Calls_total count room running fit accepted
      omega
    · exact (sha1_counted (low call member) (fit call member)).1
    · exact (sha1_counted (low call member) (fit call member)).2.1

theorem sha1Calls_guarded_iff_abc :
    SizeGuarded (sha1Calls (sha1Init default) [[0x61], [0x62, 0x63]]) := by
  refine (sha1Calls_guarded_iff default [[0x61], [0x62, 0x63]] (by decide)).mpr ?_
  intro call member
  simp only [sha1Calls, List.mem_cons, List.not_mem_nil, or_false] at member
  rcases member with rfl | rfl
  · decide
  · decide

/-- One byte, and then a count that wraps around with it. -/
theorem sha1Calls_not_guarded {value : List UInt8} (long : value.length = 2 ^ 32 - 1) :
    ¬ SizeGuarded (sha1Calls (sha1Init default) [[0x61], value]) := by
  intro guarded
  have short : ∀ chunk ∈ [[0x61], value], chunk.length < 2 ^ 32 := by
    intro chunk member
    simp only [List.mem_cons, List.not_mem_nil, or_false] at member
    rcases member with rfl | rfl
    · decide
    · omega
  have fits := sha1Calls_fit (by decide) short guarded.inside
    ⟨(sha1 (sha1Init default) [0x61]).value, value⟩ (List.mem_cons_of_mem _ List.mem_cons_self)
  have index : (sha1 (sha1Init default) [0x61]).value.index = 1 := by decide
  rw [Sha1Call.Fits, index, long] at fits
  omega

theorem sha1Calls_overrun :
    ¬ SizeGuarded (sha1Calls (sha1Init default) [[0x61], List.replicate (2 ^ 32 - 1) 0]) :=
  sha1Calls_not_guarded List.length_replicate

end Sable
