import Sable.Sha1

/-!
# The streaming SHA-1 computes SHA-1

The in-place rounds of `process_block` are the compression function of the
standard, and a context is tied to the bytes it has absorbed.  Absorbing is
independent of the chunking, so that a sequence of calls of `sha1` behaves like
one call on the concatenation.
-/

namespace Sable

open ByteMemory BigEndian SecureHash

/-- The chaining value stored in a digest. -/
def chainOf (hash : Block 20) : Chain :=
  ⟨digestWord hash 0, digestWord hash 1, digestWord hash 2,
    digestWord hash 3, digestWord hash 4⟩

@[simp]
theorem chainOf_encode (s : Chain) : chainOf s.encode = s := by
  cases s with
  | mk a b c d e =>
      change (⟨ofBe32 (be32 a), ofBe32 (be32 b), ofBe32 (be32 c),
        ofBe32 (be32 d), ofBe32 (be32 e)⟩ : Chain) = ⟨a, b, c, d, e⟩
      simp only [ofBe32_be32]

theorem choose_eq (x y z : UInt32) :
    z ^^^ (x &&& (y ^^^ z)) = (x &&& y) ^^^ (~~~x &&& z) := by
  apply UInt32.eq_of_toBitVec_eq
  ext i inside
  simp only [UInt32.toBitVec_xor, UInt32.toBitVec_and, UInt32.toBitVec_not,
    BitVec.getElem_xor, BitVec.getElem_and, BitVec.getElem_not]
  cases x.toBitVec[i] <;> cases y.toBitVec[i] <;> cases z.toBitVec[i] <;> rfl

theorem majority_eq (x y z : UInt32) :
    (x &&& y) ||| (x &&& z) ||| (y &&& z) =
      (x &&& y) ^^^ (x &&& z) ^^^ (y &&& z) := by
  apply UInt32.eq_of_toBitVec_eq
  ext i inside
  simp only [UInt32.toBitVec_xor, UInt32.toBitVec_and, UInt32.toBitVec_or,
    BitVec.getElem_xor, BitVec.getElem_and, BitVec.getElem_or]
  cases x.toBitVec[i] <;> cases y.toBitVec[i] <;> cases z.toBitVec[i] <;> rfl

theorem roundTerm_eq (X : Nat → UInt32) (i : Nat) :
    roundTerm X i = logical i (X 2) (X 3) (X 4) + stepConstant i := by
  unfold roundTerm logical stepConstant
  by_cases first : i < 20
  · have early : i < 40 := by omega
    simp only [first, early, if_true, choose_eq]
  · by_cases second : i < 40
    · simp only [first, second, if_true, if_false]
      congr 1
      ac_rfl
    · by_cases third : i < 60
      · simp only [first, second, third, if_true, if_false, majority_eq]
      · simp only [first, second, third, if_false]
        congr 1
        ac_rfl

section Compression

variable (buffer : Mem)

theorem blockWord_read {t : Nat} (early : t < 16) :
    blockWord (read buffer 0 64) t = byteSwap (bufferWords buffer t) := by
  rw [blockWord, drop_read _ _ _ _ (by omega), take_read _ _ _ _ (by omega),
    bufferWords, byteSwap_ofBe32_reverse (by simp), Nat.zero_add]

/-- The buffer words before round `t`: the words not yet visited are still in
memory order, and the others form a window of the message schedule. -/
def WindowAt (t : Nat) (w : Nat → UInt32) : Prop :=
  ∀ j < 16, w j = if t < 16 ∧ t ≤ j then bufferWords buffer j
    else scheduleWord (read buffer 0 64) (t - 16 + j)

theorem getW_word {t : Nat} {w : Nat → UInt32} (window : WindowAt buffer t w) :
    (getW w t).1 = scheduleWord (read buffer 0 64) t := by
  by_cases late : 16 ≤ t
  · have entry : ∀ j < 16, w j = scheduleWord (read buffer 0 64) (t - 16 + j) := by
      intro j inside
      rw [window j inside, if_neg (by omega)]
    have position (k : Nat) (small : k < 16) :
        w (16 - (k + 1)) = scheduleWord (read buffer 0 64) (t - (k + 1)) := by
      rw [entry _ (by omega)]
      congr 1
      omega
    have third := position 2 (by omega)
    have eighth := position 7 (by omega)
    have fourteenth := position 13 (by omega)
    have sixteenth := position 15 (by omega)
    simp only [Nat.reduceAdd, Nat.reduceSub] at third eighth fourteenth sixteenth
    simp only [getW, late, if_true, Function.update_self]
    rw [third, eighth, fourteenth, sixteenth, scheduleWord_of_ge _ late]
    rfl
  · have early : t < 16 := by omega
    simp only [getW, late, if_false, Function.update_self]
    rw [window t early, if_pos (by omega), scheduleWord_of_lt _ early,
      blockWord_read buffer early]

theorem getW_window {t : Nat} {w : Nat → UInt32} (window : WindowAt buffer t w) :
    WindowAt buffer (t + 1) (getW w t).2 := by
  have word := getW_word buffer window
  intro j inside
  by_cases late : 16 ≤ t
  · simp only [getW, late, if_true] at word ⊢
    rw [if_pos inside, if_neg (by omega)]
    by_cases last : j = 15
    · subst last
      rw [word]
      congr 1
      omega
    · rw [Function.update_of_ne (by omega), window (j + 1) (by omega),
        if_neg (by omega)]
      congr 1
      omega
  · simp only [getW, late, if_false] at word ⊢
    by_cases current : j = t
    · subst current
      rw [word, if_neg (by omega)]
      congr 1
      omega
    · rw [Function.update_of_ne current, window j inside]
      by_cases visited : j < t
      · rw [if_neg (by omega), if_neg (by omega)]
        congr 1
        omega
      · rw [if_pos (by omega), if_pos (by omega)]

/-- The working words `X[1..5]` hold the given working state. -/
def WorkingAt (X : Nat → UInt32) (s : Chain) : Prop :=
  X 1 = s.a ∧ X 2 = s.b ∧ X 3 = s.c ∧ X 4 = s.d ∧ X 5 = s.e

/-- The working words after one round, for any round term and schedule
word. -/
theorem shifted_working (X : Nat → UInt32) (first : UInt32) (s : Chain)
    (working : WorkingAt X s) :
    WorkingAt (fun j => if 1 ≤ j ∧ j ≤ 5 then
        Function.update (Function.update X 0 first) 2
          (rol (Function.update X 0 first 2) 30) (j - 1)
      else Function.update (Function.update X 0 first) 2
          (rol (Function.update X 0 first 2) 30) j)
      ⟨first, s.a, rotl 30 s.b, s.c, s.d⟩ := by
  obtain ⟨one, two, three, four, five⟩ := working
  refine ⟨?_, ?_, ?_, ?_, ?_⟩
  · simp
  · simpa using one
  · simp [two, rol, rotl]
  · simpa using three
  · simpa using four

theorem processRound_working {t : Nat} {X w : Nat → UInt32} {s : Chain}
    (working : WorkingAt X s) :
    WorkingAt (processRound t (X, w)).1 (stepChain t (getW w t).1 s) := by
  obtain ⟨one, two, three, four, five⟩ := working
  have first : roundTerm X t + rol (X 1) 5 + X 5 + (getW w t).1 =
      (stepChain t (getW w t).1 s).a := by
    rw [roundTerm_eq, one, two, three, four, five]
    simp only [stepChain, rol, rotl]
    ac_rfl
  have shifted := shifted_working X
    (roundTerm X t + rol (X 1) 5 + X 5 + (getW w t).1) s
    ⟨one, two, three, four, five⟩
  rw [first] at shifted
  simp only [processRound, first]
  exact shifted

/-- The rounds keep the working state and the schedule window of the
standard. -/
theorem processRounds_invariant (hash : Block 20) (t : Nat) :
    WorkingAt (processRounds (loadRounds buffer hash) t).1
        (steps (read buffer 0 64) (chainOf hash) t) ∧
      WindowAt buffer t (processRounds (loadRounds buffer hash) t).2 := by
  induction t with
  | zero =>
      refine ⟨⟨rfl, rfl, rfl, rfl, rfl⟩, ?_⟩
      intro j inside
      rw [if_pos (by omega)]
      rfl
  | succ t ih =>
      obtain ⟨working, window⟩ := ih
      refine ⟨?_, getW_window buffer window⟩
      have next := processRound_working (t := t)
        (w := (processRounds (loadRounds buffer hash) t).2) working
      rw [getW_word buffer window] at next
      exact next

end Compression

/-- `process_block` compresses the first 64 bytes of the buffer. -/
theorem processBlock_hash (ctx : Sha1Context) :
    (processBlock ctx).hash =
      (compress (chainOf ctx.hash) (read ctx.buffer 0 64)).encode := by
  have invariant := (processRounds_invariant ctx.buffer ctx.hash 80).1
  obtain ⟨first, second, third, fourth, fifth⟩ := invariant
  apply Block.ext_bytes
  rw [← finalWords] at first second third fourth fifth
  simp only [processBlock, addWords, compress, Chain.encode]
  rw [first, second, third, fourth, fifth]
  rfl

@[simp]
theorem processBlock_index (ctx : Sha1Context) :
    (processBlock ctx).index = ctx.index :=
  rfl

@[simp]
theorem processBlock_blocks (ctx : Sha1Context) :
    (processBlock ctx).blocks = ctx.blocks :=
  rfl

/-- Compression neither reads nor changes the counters. -/
theorem processBlock_counters (ctx : Sha1Context) (index blocks : Nat) :
    processBlock { ctx with index := index, blocks := blocks } =
      { processBlock ctx with index := index, blocks := blocks } :=
  rfl

@[simp]
theorem copyIn_hash (ctx : Sha1Context) (bytes : List UInt8) :
    (ctx.copyIn bytes).hash = ctx.hash :=
  rfl

@[simp]
theorem copyIn_buffer (ctx : Sha1Context) (bytes : List UInt8) :
    (ctx.copyIn bytes).buffer = write ctx.buffer ctx.index bytes :=
  rfl

/-- Feed one byte to a context. -/
def absorbByte (ctx : Sha1Context) (byte : UInt8) : Sha1Context :=
  if ctx.index + 1 = 64 then
    { processBlock (ctx.copyIn [byte]) with blocks := ctx.blocks + 1, index := 0 }
  else { ctx.copyIn [byte] with index := ctx.index + 1 }

/-- Feed a byte string to a context. -/
def absorb (ctx : Sha1Context) (bytes : List UInt8) : Sha1Context :=
  bytes.foldl absorbByte ctx

@[simp]
theorem absorb_nil (ctx : Sha1Context) : absorb ctx [] = ctx :=
  rfl

@[simp]
theorem absorb_absorb (ctx : Sha1Context) (first second : List UInt8) :
    absorb (absorb ctx first) second = absorb ctx (first ++ second) :=
  List.foldl_append.symm

/-- Bytes that do not fill the buffer are only copied. -/
theorem absorb_of_lt (ctx : Sha1Context) (bytes : List UInt8)
    (short : ctx.index + bytes.length < 64) :
    absorb ctx bytes =
      { ctx.copyIn bytes with index := ctx.index + bytes.length } := by
  induction bytes generalizing ctx with
  | nil => simp [Sha1Context.copyIn]
  | cons byte bytes ih =>
      rw [List.length_cons] at short
      have single : absorbByte ctx byte =
          { ctx.copyIn [byte] with index := ctx.index + 1 } := by
        rw [absorbByte, if_neg (by omega)]
      have joined := write_write_append ctx.buffer ctx.index [byte] bytes
      simp only [List.length_singleton, List.singleton_append] at joined
      change absorb (absorbByte ctx byte) bytes = _
      rw [single, ih _ (by simp only; omega)]
      simp only [Sha1Context.copyIn, joined, List.length_cons, Nat.add_assoc,
        Nat.add_comm 1]

/-- Bytes that exactly fill the buffer are copied and compressed. -/
theorem absorb_of_eq (ctx : Sha1Context) (bytes : List UInt8)
    (room : ctx.index < 64) (full : ctx.index + bytes.length = 64) :
    absorb ctx bytes =
      { processBlock (ctx.copyIn bytes) with
        blocks := ctx.blocks + 1
        index := 0 } := by
  obtain ⟨front, last, rfl⟩ : ∃ front last, bytes = front ++ [last] := by
    rcases List.eq_nil_or_concat bytes with rfl | ⟨front, last, equal⟩
    · simp at full
      omega
    · exact ⟨front, last, by simpa using equal⟩
  simp only [List.length_append, List.length_singleton] at full
  rw [← absorb_absorb, absorb_of_lt ctx front (by omega)]
  change absorbByte _ last = _
  rw [absorbByte, if_pos (by simp only; omega)]
  have joined : Sha1Context.copyIn
      { ctx.copyIn front with index := ctx.index + front.length } [last] =
        { ctx.copyIn (front ++ [last]) with
          index := ctx.index + front.length
          blocks := ctx.blocks } := by
    simp only [Sha1Context.copyIn, write_write_append]
  rw [joined, processBlock_counters]
  rfl

theorem sha1Loop_of_lt {fuel : Nat} {ctx : Sha1Context} {value : List UInt8}
    (short : ctx.index + value.length < 64) :
    sha1Loop fuel ctx value = .ok (ctx, value) := by
  cases fuel with
  | zero => rfl
  | succ fuel =>
      rw [sha1Loop, if_neg]
      rw [Nat.mod_eq_of_lt (by omega)]
      omega

/-- Below the size limit the block loop never fails and consumes whole
buffers. -/
theorem sha1Loop_absorb (fuel : Nat) (ctx : Sha1Context) (value : List UInt8)
    (room : ctx.index < 64) (enough : value.length < fuel)
    (bounded : 64 * ctx.blocks + ctx.index + value.length < 2 ^ 29) :
    ∃ reached rest, sha1Loop fuel ctx value = .ok (reached, rest) ∧
      reached.index + rest.length < 64 ∧
      absorb reached rest = absorb ctx value := by
  induction fuel generalizing ctx value with
  | zero => omega
  | succ fuel ih =>
      by_cases short : ctx.index + value.length < 64
      · exact ⟨ctx, value, sha1Loop_of_lt short, short, rfl⟩
      have whole : (value.take (64 - ctx.index)).length = 64 - ctx.index := by
        rw [List.length_take]
        omega
      have remaining : (value.drop (64 - ctx.index)).length =
          value.length - (64 - ctx.index) :=
        List.length_drop
      have filled : absorb ctx (value.take (64 - ctx.index)) =
          { processBlock (ctx.copyIn (value.take (64 - ctx.index))) with
            blocks := ctx.blocks + 1
            index := 0 } :=
        absorb_of_eq ctx _ room (by omega)
      have counted : (ctx.blocks + 1) % 2 ^ 32 = ctx.blocks + 1 :=
        Nat.mod_eq_of_lt (by omega)
      obtain ⟨reached, rest, run, fits, absorbed⟩ :=
        ih (absorb ctx (value.take (64 - ctx.index)))
          (value.drop (64 - ctx.index))
          (by rw [filled]; simp only; omega) (by omega)
          (by rw [filled, remaining]; simp only; omega)
      refine ⟨reached, rest, ?_, fits, ?_⟩
      · rw [sha1Loop, if_pos (by rw [Nat.mod_eq_of_lt (by omega)]; omega)]
        simp only [processBlock_blocks, Sha1Context.copyIn, counted]
        rw [if_neg (by omega), ← run, filled]
        rfl
      · rw [absorbed, absorb_absorb, List.take_append_drop]

/-- From the size limit on the block loop fails. -/
theorem sha1Loop_large (fuel : Nat) (ctx : Sha1Context) (value : List UInt8)
    (start : ctx.index = 0) (enough : value.length < fuel)
    (short : value.length < 2 ^ 32) (running : ctx.blocks < 2 ^ 23)
    (large : 2 ^ 29 ≤ 64 * ctx.blocks + value.length) :
    (sha1Loop fuel ctx value).exception ≠ .none := by
  induction fuel generalizing ctx value with
  | zero => omega
  | succ fuel ih =>
      have counted : (ctx.blocks + 1) % 2 ^ 32 = ctx.blocks + 1 :=
        Nat.mod_eq_of_lt (by omega)
      rw [sha1Loop, start, Nat.add_zero, Nat.mod_eq_of_lt short, if_pos (by omega)]
      simp only [processBlock_blocks, Sha1Context.copyIn, counted]
      split
      · simp
      · exact ih _ _ rfl (by rw [List.length_drop]; omega)
          (by rw [List.length_drop]; omega) (by simp only; omega)
          (by rw [List.length_drop]; simp only; omega)

/-- Below the size limit a call of `sha1` succeeds and absorbs its bytes. -/
theorem sha1_eq_absorb {ctx : Sha1Context} {value : List UInt8}
    (room : ctx.index < 64)
    (bounded : 64 * ctx.blocks + ctx.index + value.length < 2 ^ 29) :
    sha1 ctx value = .ok (absorb ctx value) := by
  obtain ⟨reached, rest, run, fits, absorbed⟩ :=
    sha1Loop_absorb (value.length + 1) ctx value room (by omega) bounded
  rw [sha1, run]
  simp only [Result.value_ok, Result.exception_ok, if_true]
  rw [Nat.mod_eq_of_lt (by omega), ← absorb_of_lt reached rest fits, absorbed]

/-- The context has absorbed exactly the bytes of `message`. -/
structure Absorbed (ctx : Sha1Context) (message : List UInt8) : Prop where
  index_eq : ctx.index = message.length % 64
  blocks_eq : ctx.blocks = message.length / 64
  hash_eq : ctx.hash = (chain initial (message.length / 64) message).encode
  buffer_eq : read ctx.buffer 0 (message.length % 64) =
    message.drop (64 * (message.length / 64))

namespace Absorbed

variable {ctx : Sha1Context} {message : List UInt8}

theorem index_lt (absorbed : Absorbed ctx message) : ctx.index < 64 := by
  rw [absorbed.index_eq]
  exact Nat.mod_lt _ (by omega)

theorem size_eq (absorbed : Absorbed ctx message) :
    64 * ctx.blocks + ctx.index = message.length := by
  rw [absorbed.blocks_eq, absorbed.index_eq]
  omega

/-- The part of the message behind the last compressed block, extended by the
bytes written behind it. -/
theorem read_write (absorbed : Absorbed ctx message) (bytes : List UInt8) :
    read (write ctx.buffer ctx.index bytes) 0 (ctx.index + bytes.length) =
      message.drop (64 * (message.length / 64)) ++ bytes := by
  rw [read_add, Nat.zero_add, read_write_self,
    read_write_disjoint _ (by omega), absorbed.index_eq, absorbed.buffer_eq]

theorem init (ctx : Sha1Context) : Absorbed (sha1Init ctx) [] where
  index_eq := rfl
  blocks_eq := rfl
  hash_eq := by
    apply Block.ext_bytes
    change [0x67, 0x45, 0x23, 0x01, 0xEF, 0xCD, 0xAB, 0x89, 0x98, 0xBA,
      0xDC, 0xFE, 0x10, 0x32, 0x54, 0x76, 0xC3, 0xD2, 0xE1, 0xF0] =
        initial.encode.bytes
    decide
  buffer_eq := rfl

/-- One more byte. -/
theorem absorbByte (absorbed : Absorbed ctx message) (byte : UInt8) :
    Absorbed (absorbByte ctx byte) (message ++ [byte]) := by
  have extended := absorbed.read_write [byte]
  have index := absorbed.index_eq
  have blocks := absorbed.blocks_eq
  have size : (message ++ [byte]).length = message.length + 1 := by simp
  by_cases full : ctx.index + 1 = 64
  · have count : (message.length + 1) / 64 = message.length / 64 + 1 := by omega
    have none : (message.length + 1) % 64 = 0 := by omega
    rw [Sable.absorbByte, if_pos full]
    refine ⟨by rw [size, none], by rw [size, count, ← blocks], ?_, ?_⟩
    · simp only [processBlock_hash, size, count, copyIn_hash, copyIn_buffer]
      rw [absorbed.hash_eq, chainOf_encode, chain_succ,
        chain_append _ (by omega)]
      simp only [List.length_singleton, full] at extended
      rw [extended, ← List.drop_append_of_le_length (by omega),
        List.take_of_length_le]
      simp
      omega
    · rw [size, none, count]
      symm
      rw [read_zero, List.drop_eq_nil_iff]
      omega
  · have count : (message.length + 1) / 64 = message.length / 64 := by omega
    have rest : (message.length + 1) % 64 = ctx.index + 1 := by omega
    rw [Sable.absorbByte, if_neg full]
    refine ⟨by rw [size, rest], blocks.trans (by rw [size, count]), ?_, ?_⟩
    · simp only [size, count, copyIn_hash]
      rw [absorbed.hash_eq, chain_append _ (by omega)]
    · rw [size, rest, count]
      exact extended.trans (List.drop_append_of_le_length (by omega)).symm

/-- A run over any further bytes. -/
theorem absorb (absorbed : Absorbed ctx message) (bytes : List UInt8) :
    Absorbed (absorb ctx bytes) (message ++ bytes) := by
  induction bytes generalizing ctx message with
  | nil => simpa using absorbed
  | cons byte bytes ih =>
      have next := ih (absorbed.absorbByte byte)
      rw [List.append_assoc] at next
      exact next

/-- A call of `sha1` below the size limit. -/
theorem sha1_eq (absorbed : Absorbed ctx message) {value : List UInt8}
    (bounded : message.length + value.length < 2 ^ 29) :
    sha1 ctx value = .ok (Sable.absorb ctx value) := by
  apply sha1_eq_absorb absorbed.index_lt
  rw [absorbed.size_eq]
  exact bounded

end Absorbed

theorem padding_of_short {message : List UInt8} (bounded : message.length < 2 ^ 29)
    (short : message.length % 64 < 56) :
    pad message = message ++ (0x80 :: List.replicate (59 - message.length % 64) 0 ++
      be32 (UInt32.ofNat (8 * message.length))) := by
  have high : 8 * message.length / 4294967296 = 0 := by omega
  have zeros : (119 - message.length % 64) % 64 = 55 - message.length % 64 := by omega
  have split : 59 - message.length % 64 = 55 - message.length % 64 + 4 := by omega
  rw [pad, high, zeros, split, List.replicate_add]
  simp [be32]

theorem padding_of_long {message : List UInt8} (bounded : message.length < 2 ^ 29)
    (long : 56 ≤ message.length % 64) :
    pad message = message ++ (0x80 :: List.replicate (63 - message.length % 64) 0 ++
      (List.replicate 60 0 ++ be32 (UInt32.ofNat (8 * message.length)))) := by
  have high : 8 * message.length / 4294967296 = 0 := by omega
  have zeros : (119 - message.length % 64) % 64 =
      63 - message.length % 64 + 56 := by omega
  have split : 60 = 56 + 4 := rfl
  rw [pad, high, zeros, split, List.replicate_add 56 4, List.replicate_add]
  simp [be32]

/-- The last four bytes of the buffer take the length. -/
theorem read_length (buffer : Mem) (front : List UInt8) (bits : UInt32)
    (filled : (read buffer 0 64).take 60 = front) :
    read (write buffer 60 (be32 bits)) 0 64 = front ++ be32 bits := by
  have parts := read_add (write buffer 60 (be32 bits)) 0 60 4
  have self := read_write_self buffer 60 (be32 bits)
  rw [length_be32] at self
  rw [parts, Nat.zero_add, self, read_write_disjoint _ (by omega), ← filled,
    take_read _ _ _ _ (by omega)]

/-- The bytes `sha1_finish` puts behind the message. -/
def finishBytes (index : Nat) : List UInt8 :=
  0x80 :: List.replicate (63 - index) 0

theorem length_finishBytes {index : Nat} (room : index < 64) :
    index + (finishBytes index).length = 64 := by
  simp only [finishBytes, List.length_cons, List.length_replicate]
  omega

/-- The length field that `sha1_finish` stores. -/
def finishBits (ctx : Sha1Context) : UInt32 :=
  UInt32.ofNat (ctx.blocks * 512 + ctx.index * 8)

theorem sha1Finish_of_short {ctx : Sha1Context} (short : ¬ 55 < ctx.index) :
    (sha1Finish ctx).hash =
      (compress (chainOf ctx.hash)
        (read (write (ctx.copyIn (finishBytes ctx.index)).buffer 60
          (be32 (finishBits ctx))) 0 64)).encode := by
  have same : (ctx.copyIn (finishBytes ctx.index)).index = ctx.index := rfl
  rw [sha1Finish, ← finishBytes]
  simp only [same, short, if_false, processBlock_hash, copyIn_hash]
  rfl

theorem sha1Finish_of_long {ctx : Sha1Context} (long : 55 < ctx.index) :
    (sha1Finish ctx).hash =
      (compress (compress (chainOf ctx.hash)
          (read (ctx.copyIn (finishBytes ctx.index)).buffer 0 64))
        (List.replicate 60 0 ++ be32 (finishBits ctx))).encode := by
  have same : (ctx.copyIn (finishBytes ctx.index)).index = ctx.index := rfl
  have sameBlocks : (ctx.copyIn (finishBytes ctx.index)).blocks = ctx.blocks := rfl
  have zeros (buffer : Mem) :
      (read (write buffer 0 (List.replicate 64 0)) 0 64).take 60 =
        List.replicate 60 0 := by
    have whole := read_write_self buffer 0 (List.replicate 64 0)
    rw [List.length_replicate] at whole
    rw [whole, List.take_replicate]
    rfl
  rw [sha1Finish, ← finishBytes]
  simp only [same, sameBlocks, long, if_true, processBlock_hash, copyIn_hash,
    processBlock_index, processBlock_blocks, chainOf_encode]
  rw [read_length _ _ _ (zeros _), finishBits]

namespace Absorbed

variable {ctx : Sha1Context} {message : List UInt8}

theorem finishBits_eq (absorbed : Absorbed ctx message) :
    finishBits ctx = UInt32.ofNat (8 * message.length) := by
  have size := absorbed.size_eq
  have bits : ctx.blocks * 512 + ctx.index * 8 = 8 * message.length := by omega
  rw [finishBits, bits]

/-- The last, partial block of the message with the bytes behind it. -/
theorem read_finishBytes (absorbed : Absorbed ctx message) :
    read (ctx.copyIn (finishBytes ctx.index)).buffer 0 64 =
      message.drop (64 * (message.length / 64)) ++ finishBytes ctx.index := by
  have filled := absorbed.read_write (finishBytes ctx.index)
  rw [length_finishBytes absorbed.index_lt] at filled
  exact filled

theorem length_tail (absorbed : Absorbed ctx message) :
    (message.drop (64 * (message.length / 64))).length = ctx.index := by
  have index := absorbed.index_eq
  rw [List.length_drop]
  omega

theorem finish_of_long (absorbed : Absorbed ctx message)
    (bounded : message.length < 2 ^ 29) (long : 55 < ctx.index) :
    (sha1Finish ctx).hash = SecureHash.sha1 message := by
  have index := absorbed.index_eq
  have tail := absorbed.length_tail
  have width := length_finishBytes absorbed.index_lt
  have padding := padding_of_long bounded (by omega)
  rw [← index, ← finishBytes] at padding
  have count : (pad message).length / 64 = message.length / 64 + 1 + 1 := by
    rw [length_pad, if_neg (by omega)]
    omega
  have first : (((pad message).drop (64 * (message.length / 64))).take 64) =
      message.drop (64 * (message.length / 64)) ++ finishBytes ctx.index := by
    rw [padding, List.drop_append_of_le_length (by omega), ← List.append_assoc]
    apply List.take_left'
    rw [List.length_append]
    omega
  have second : ((pad message).drop (64 * (message.length / 64 + 1))).take 64 =
      List.replicate 60 0 ++ be32 (UInt32.ofNat (8 * message.length)) := by
    have parts : 64 * (message.length / 64 + 1) =
        64 * (message.length / 64) + 64 := by omega
    rw [padding, parts, ← List.drop_drop,
      List.drop_append_of_le_length (by omega), ← List.append_assoc,
      List.drop_left' (by rw [List.length_append]; omega),
      List.take_of_length_le (by simp)]
  have reached : chain initial (message.length / 64) (pad message) =
      chain initial (message.length / 64) message := by
    rw [padding, chain_append _ (by omega)]
  rw [sha1Finish_of_long long, absorbed.finishBits_eq, absorbed.read_finishBytes,
    absorbed.hash_eq, chainOf_encode, SecureHash.sha1, count, chain_succ,
    chain_succ, first, second, reached]

theorem finish_of_short (absorbed : Absorbed ctx message)
    (bounded : message.length < 2 ^ 29) (short : ¬ 55 < ctx.index) :
    (sha1Finish ctx).hash = SecureHash.sha1 message := by
  have index := absorbed.index_eq
  have tail := absorbed.length_tail
  have padding := padding_of_short bounded (by omega)
  rw [← index] at padding
  have count : (pad message).length / 64 = message.length / 64 + 1 := by
    rw [length_pad, if_pos (by omega)]
    omega
  have first : (((pad message).drop (64 * (message.length / 64))).take 64) =
      message.drop (64 * (message.length / 64)) ++
        0x80 :: List.replicate (59 - ctx.index) 0 ++
          be32 (UInt32.ofNat (8 * message.length)) := by
    rw [padding, List.drop_append_of_le_length (by omega), List.take_of_length_le,
      List.append_assoc]
    simp only [List.length_append, List.length_cons, List.length_replicate,
      length_be32]
    omega
  have cut : (read (ctx.copyIn (finishBytes ctx.index)).buffer 0 64).take 60 =
      message.drop (64 * (message.length / 64)) ++
        0x80 :: List.replicate (59 - ctx.index) 0 := by
    have split : 63 - ctx.index = 59 - ctx.index + 4 := by omega
    rw [absorbed.read_finishBytes, finishBytes, split, List.replicate_add,
      ← List.cons_append, ← List.append_assoc]
    apply List.take_left'
    simp only [List.length_append, List.length_cons, List.length_replicate]
    omega
  have reached : chain initial (message.length / 64) (pad message) =
      chain initial (message.length / 64) message := by
    rw [padding, chain_append _ (by omega)]
  rw [sha1Finish_of_short short, absorbed.finishBits_eq, read_length _ _ _ cut,
    absorbed.hash_eq, chainOf_encode, SecureHash.sha1, count, chain_succ, first,
    reached]

/-- Finishing a context yields the SHA-1 digest of the absorbed bytes. -/
theorem finish (absorbed : Absorbed ctx message)
    (bounded : message.length < 2 ^ 29) :
    (sha1Finish ctx).hash = SecureHash.sha1 message := by
  by_cases long : 55 < ctx.index
  · exact absorbed.finish_of_long bounded long
  · exact absorbed.finish_of_short bounded long

/-- From the size limit on a call of `sha1` fails. -/
theorem sha1_large (absorbed : Absorbed ctx []) {value : List UInt8}
    (large : 2 ^ 29 ≤ value.length) (short : value.length < 2 ^ 32) :
    (Sable.sha1 ctx value).exception ≠ .none := by
  have failed := sha1Loop_large (value.length + 1) ctx value absorbed.index_eq
    (by omega) short (by rw [absorbed.blocks_eq]; simp) (by omega)
  rw [Sable.sha1]
  simp only [if_neg failed]
  exact failed

end Absorbed

/-- Calls of `sha1` on one chunk after another, up to the first that fails. -/
def sha1Chunks (ctx : Sha1Context) : List (List UInt8) → Result Sha1Context
  | [] => .ok ctx
  | chunk :: chunks =>
      let ret := sha1 ctx chunk
      if ret.exception = .none then sha1Chunks ret.value chunks else ret

theorem Absorbed.sha1Chunks_eq {ctx : Sha1Context} {message : List UInt8}
    (absorbed : Absorbed ctx message) {chunks : List (List UInt8)}
    (bounded : message.length + chunks.flatten.length < 2 ^ 29) :
    sha1Chunks ctx chunks = .ok (Sable.absorb ctx chunks.flatten) := by
  induction chunks generalizing ctx message with
  | nil => rfl
  | cons chunk chunks ih =>
      rw [List.flatten_cons, List.length_append] at bounded
      have call := absorbed.sha1_eq (by omega : message.length + chunk.length < 2 ^ 29)
      have rest := ih (absorbed.absorb chunk) (by rw [List.length_append]; omega)
      simp only [sha1Chunks, call, Result.exception_ok, Result.value_ok, if_true]
      rw [rest, absorb_absorb, List.flatten_cons]

/-- Streaming a message in any chunks gives its SHA-1 digest. -/
theorem sha1Chunks_digest (ctx : Sha1Context) (chunks : List (List UInt8))
    (bounded : chunks.flatten.length < 2 ^ 29) :
    (sha1Chunks (sha1Init ctx) chunks).exception = .none ∧
      (sha1Finish (sha1Chunks (sha1Init ctx) chunks).value).hash =
        SecureHash.sha1 chunks.flatten := by
  have start := Absorbed.init ctx
  have run := start.sha1Chunks_eq
    (by simpa using bounded : [].length + chunks.flatten.length < 2 ^ 29)
  rw [run]
  constructor
  · rfl
  · exact (start.absorb chunks.flatten).finish (by simpa using bounded)

theorem sha1Chunks_digest_abc :
    ([[0x61], [], [0x62, 0x63]] : List (List UInt8)).flatten.length < 2 ^ 29 ∧
      (sha1Finish (sha1Chunks (sha1Init default) [[0x61], [], [0x62, 0x63]]).value).hash =
        SecureHash.sha1 [0x61, 0x62, 0x63] :=
  ⟨by decide, (sha1Chunks_digest default [[0x61], [], [0x62, 0x63]] (by decide)).2⟩

end Sable
