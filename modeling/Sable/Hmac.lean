import Sable.Sha1Streaming

/-!
# The keyed hash of `hmac.c`

The HMAC context keeps the block key next to a SHA-1 context that has absorbed
the inner pad.  The TPM commands feed that SHA-1 context directly.
-/

namespace Sable

open ByteMemory BigEndian SecureHash

structure HmacContext where
  key : Block 64
  sctx : Sha1Context

instance : Inhabited HmacContext :=
  ⟨⟨default, default⟩⟩

/-- A pad filled with `byte` and masked with the key. -/
def padKey (byte : UInt8) (key : Block 64) : List UInt8 :=
  List.zipWith (· ^^^ ·) (List.replicate 64 byte) key.bytes

/-- The end of `hmac_init`, once the block key is in place. -/
def hmacStart (ctx : HmacContext) : Result HmacContext :=
  let ret := sha1 (sha1Init ctx.sctx) (padKey 0x36 ctx.key)
  ⟨ret.exception, { ctx with sctx := ret.value }⟩

def hmacInit (ctx : HmacContext) (key : List UInt8) : Result HmacContext :=
  if key.length ≤ 64 then
    hmacStart { ctx with key := Block.ofList 64 key }
  else
    let ret := sha1 (sha1Init ctx.sctx) key
    if ret.exception = .none then
      let sctx := sha1Finish ret.value
      hmacStart ⟨Block.ofList 64 sctx.hash.bytes, sctx⟩
    else .error ret.exception ⟨Block.zero 64, ret.value⟩

def hmac (ctx : HmacContext) (data : List UInt8) : Result HmacContext :=
  let ret := sha1 ctx.sctx data
  ⟨ret.exception, { ctx with sctx := ret.value }⟩

def hmacFinish (ctx : HmacContext) : Result HmacContext :=
  let inner := sha1Finish ctx.sctx
  let outer := sha1 (sha1Init inner) (padKey 0x5c ctx.key)
  if outer.exception = .none then
    let ret := sha1 outer.value inner.hash.bytes
    if ret.exception = .none then .ok { ctx with sctx := sha1Finish ret.value }
    else .error ret.exception { ctx with sctx := ret.value }
  else .error outer.exception { ctx with sctx := outer.value }

@[simp]
theorem length_padKey (byte : UInt8) (key : Block 64) :
    (padKey byte key).length = 64 := by
  simp [padKey]

theorem padKey_eq_map (byte : UInt8) (key : Block 64) :
    padKey byte key = key.bytes.map (byte ^^^ ·) := by
  apply List.ext_getElem
  · simp
  · intro index _ _
    simp only [padKey, List.getElem_zipWith, List.getElem_replicate,
      List.getElem_map]

theorem ofList_eq_blockKey {key : List UInt8} (short : key.length ≤ 64) :
    (Block.ofList 64 key).bytes = blockKey key := by
  rw [blockKey_of_le short]
  apply List.ext_getElem
  · simp
    omega
  · intro index _ _
    simp only [Block.ofList, List.getElem_take, List.getElem_append,
      List.getElem_replicate]

/-- The context belongs to `key` and has absorbed `message` behind the inner
pad. -/
structure HmacAbsorbed (ctx : HmacContext) (key message : List UInt8) : Prop where
  key_eq : ctx.key.bytes = blockKey key
  inner : Absorbed ctx.sctx (padKey 0x36 ctx.key ++ message)

theorem hmacStart_eq (ctx : HmacContext) :
    hmacStart ctx =
      .ok { ctx with sctx := absorb (sha1Init ctx.sctx) (padKey 0x36 ctx.key) } := by
  have run := (Absorbed.init ctx.sctx).sha1_eq
    (by simp : [].length + (padKey 0x36 ctx.key).length < 2 ^ 29)
  rw [hmacStart, run]
  rfl

theorem hmacStart_absorbed {ctx : HmacContext} {key : List UInt8}
    (keyEq : ctx.key.bytes = blockKey key) :
    ∃ reached, hmacStart ctx = .ok reached ∧ HmacAbsorbed reached key [] := by
  refine ⟨_, hmacStart_eq ctx, keyEq, ?_⟩
  have absorbed := (Absorbed.init ctx.sctx).absorb (padKey 0x36 ctx.key)
  simpa using absorbed

/-- `hmac_init` succeeds for every key below the SHA-1 size limit. -/
theorem hmacInit_absorbed (ctx : HmacContext) {key : List UInt8}
    (bounded : key.length < 2 ^ 29) :
    ∃ reached, hmacInit ctx key = .ok reached ∧ HmacAbsorbed reached key [] := by
  by_cases short : key.length ≤ 64
  · rw [hmacInit, if_pos short]
    exact hmacStart_absorbed (ofList_eq_blockKey short)
  · have start := Absorbed.init ctx.sctx
    have run := start.sha1_eq (by simpa using bounded : [].length + key.length < 2 ^ 29)
    have digest := (start.absorb key).finish (by simpa using bounded)
    rw [List.nil_append] at digest
    rw [hmacInit, if_neg short, run]
    simp only [Result.exception_ok, Result.value_ok, if_true, digest]
    apply hmacStart_absorbed
    have shortDigest : (SecureHash.sha1 key).bytes.length ≤ 64 := by simp
    rw [ofList_eq_blockKey shortDigest, blockKey_of_le shortDigest]
    simp [blockKey, short]

/-- `hmac_finish` leaves the keyed hash of the absorbed message. -/
theorem HmacAbsorbed.finish {ctx : HmacContext} {key message : List UInt8}
    (absorbed : HmacAbsorbed ctx key message)
    (bounded : message.length + 64 < 2 ^ 29) :
    ∃ reached, hmacFinish ctx = .ok reached ∧
      reached.sctx.hash = SecureHash.hmac key message := by
  have inner : (sha1Finish ctx.sctx).hash =
      SecureHash.sha1 (padKey 0x36 ctx.key ++ message) := by
    apply absorbed.inner.finish
    rw [List.length_append, length_padKey]
    omega
  have start := Absorbed.init (sha1Finish ctx.sctx)
  have pad := start.sha1_eq
    (by simp : [].length + (padKey 0x5c ctx.key).length < 2 ^ 29)
  have padded := start.absorb (padKey 0x5c ctx.key)
  rw [List.nil_append] at padded
  have digest := padded.sha1_eq
    (by simp : (padKey 0x5c ctx.key).length +
      (sha1Finish ctx.sctx).hash.bytes.length < 2 ^ 29)
  have outer := (padded.absorb (sha1Finish ctx.sctx).hash.bytes).finish (by simp)
  rw [hmacFinish]
  simp only [pad, digest, Result.exception_ok, Result.value_ok, if_true]
  refine ⟨_, rfl, ?_⟩
  rw [outer, inner, SecureHash.hmac, padKey_eq_map, padKey_eq_map,
    absorbed.key_eq]

/-- The ways in which data reaches an HMAC context: through `hmac`, or through
a direct call of `sha1` on the context inside it. -/
inductive HmacCall
  | hmac (data : List UInt8)
  | sha1 (data : List UInt8)

def HmacCall.data : HmacCall → List UInt8
  | .hmac data => data
  | .sha1 data => data

def HmacCall.run (ctx : HmacContext) : HmacCall → Result HmacContext
  | .hmac data => Sable.hmac ctx data
  | .sha1 data =>
      let ret := Sable.sha1 ctx.sctx data
      ⟨ret.exception, { ctx with sctx := ret.value }⟩

/-- One call after another, up to the first that fails. -/
def hmacCalls (ctx : HmacContext) : List HmacCall → Result HmacContext
  | [] => .ok ctx
  | call :: calls =>
      let ret := call.run ctx
      if ret.exception = .none then hmacCalls ret.value calls else ret

theorem HmacCall.run_absorbed (call : HmacCall) {ctx : HmacContext}
    {key message : List UInt8} (absorbed : HmacAbsorbed ctx key message)
    (bounded : message.length + call.data.length + 64 < 2 ^ 29) :
    ∃ reached, call.run ctx = .ok reached ∧
      HmacAbsorbed reached key (message ++ call.data) := by
  have size : (padKey 0x36 ctx.key ++ message).length + call.data.length < 2 ^ 29 := by
    rw [List.length_append, length_padKey]
    omega
  have run := absorbed.inner.sha1_eq size
  have inner := absorbed.inner.absorb call.data
  rw [List.append_assoc] at inner
  refine ⟨{ ctx with sctx := Sable.absorb ctx.sctx call.data }, ?_,
    absorbed.key_eq, inner⟩
  cases call with
  | hmac data =>
      rw [HmacCall.data] at run
      rw [HmacCall.run, Sable.hmac, run]
      rfl
  | sha1 data =>
      rw [HmacCall.data] at run
      rw [HmacCall.run, run]
      rfl

theorem hmacCalls_absorbed (calls : List HmacCall) {ctx : HmacContext}
    {key message : List UInt8} (absorbed : HmacAbsorbed ctx key message)
    (bounded : message.length + (calls.map HmacCall.data).flatten.length + 64 < 2 ^ 29) :
    ∃ reached, hmacCalls ctx calls = .ok reached ∧
      HmacAbsorbed reached key (message ++ (calls.map HmacCall.data).flatten) := by
  induction calls generalizing ctx message with
  | nil => exact ⟨ctx, rfl, by simpa using absorbed⟩
  | cons call calls ih =>
      rw [List.map_cons, List.flatten_cons, List.length_append] at bounded
      obtain ⟨next, run, step⟩ := call.run_absorbed absorbed (by omega)
      obtain ⟨reached, rest, last⟩ := ih step (by rw [List.length_append]; omega)
      refine ⟨reached, ?_, ?_⟩
      · simp only [hmacCalls, run, Result.exception_ok, Result.value_ok, if_true, rest]
      · rw [List.append_assoc] at last
        exact last

/-- A whole HMAC computation gives the keyed hash of the concatenated data. -/
theorem hmacCalls_digest (ctx : HmacContext) (key : List UInt8) (calls : List HmacCall)
    (shortKey : key.length < 2 ^ 29)
    (shortData : (calls.map HmacCall.data).flatten.length < 2 ^ 29 - 64) :
    ∃ started absorbed finished,
      hmacInit ctx key = .ok started ∧
      hmacCalls started calls = .ok absorbed ∧
      hmacFinish absorbed = .ok finished ∧
      finished.sctx.hash = SecureHash.hmac key (calls.map HmacCall.data).flatten := by
  obtain ⟨started, init, start⟩ := hmacInit_absorbed ctx shortKey
  obtain ⟨absorbed, run, step⟩ :=
    hmacCalls_absorbed calls start (by rw [List.length_nil]; omega)
  obtain ⟨finished, finish, digest⟩ := step.finish (by rw [List.nil_append]; omega)
  exact ⟨started, absorbed, finished, init, run, finish, digest⟩

theorem hmacCalls_digest_long_key :
    (List.replicate 65 (0xaa : UInt8)).length < 2 ^ 29 ∧
      ∃ started absorbed finished,
        hmacInit ⟨Block.zero 64, default⟩ (List.replicate 65 0xaa) = .ok started ∧
        hmacCalls started [.hmac [0x61], .sha1 [0x62, 0x63]] = .ok absorbed ∧
        hmacFinish absorbed = .ok finished ∧
        finished.sctx.hash =
          SecureHash.hmac (List.replicate 65 0xaa) [0x61, 0x62, 0x63] :=
  ⟨by decide, hmacCalls_digest ⟨Block.zero 64, default⟩ (List.replicate 65 0xaa)
    [.hmac [0x61], .sha1 [0x62, 0x63]] (by decide) (by decide)⟩

end Sable
