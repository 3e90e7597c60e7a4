import Sable.TpmStruct
import Sable.ResponseFrames

/-!
# What the marshalling functions hash and where they write

Every unmarshalling function can be called for the hash alone, and then it should
feed the hash what the marshalling function feeds it; with an unpack context it
should feed the hash what it takes from the buffer.  Every marshalling function
checks that its bytes fit the buffer, by an addition of 32-bit words.
-/

namespace Sable

open ByteMemory BigEndian HaltingProgram

section Hashes

variable {σ : Type}

/-- The calls of the unmarshalling functions, with the contents of the object that
the first argument points to.  An array can have a null destination. -/
inductive UnmarshalCall
  | byte (val : UInt8)
  | uint16 (val : UInt16)
  | uint32 (val : UInt32)
  | array (data : Option (List UInt8)) (size : UInt32)

namespace UnmarshalCall

/-- The number of bytes of the value. -/
def size : UnmarshalCall → UInt32
  | byte _ => 1
  | uint16 _ => 2
  | uint32 _ => 4
  | array _ size => size

/-- The call itself; the value is of no interest here. -/
def unmarshal (ctx : ContextPtr) (sctx : HashPtr) : UnmarshalCall → Boot σ Unit
  | byte val => do
      let _ ← unmarshalBYTE val ctx sctx
      return ()
  | uint16 val => do
      let _ ← unmarshalUINT16 val ctx sctx
      return ()
  | uint32 val => do
      let _ ← unmarshalUINT32 val ctx sctx
      return ()
  | array data size => do
      let _ ← unmarshalArray data size ctx sctx
      return ()

/-- The marshalling function for the same value, called for the hash alone.  An array
without a destination has no value, and the assertion of `marshal_array` fails. -/
def marshal (sctx : HashPtr) : UnmarshalCall → Boot σ Unit
  | byte val => marshalBYTE val .null sctx
  | uint16 val => marshalUINT16 val .null sctx
  | uint32 val => marshalUINT32 val .null sctx
  | array (some data) _ => marshalBytes data .null sctx
  | array none _ => Prog.halt .exit

/-- The bytes over which a call for the hash alone calls `sha1`. -/
def hashedAlone (m : Machine σ) : UnmarshalCall → List UInt8
  | byte val => [val]
  | uint16 val => (be16 (byteSwap val.toUInt32).toUInt16).reverse
  | uint32 val => be32 val
  | array data size => data.getD (read m.mem 0 size.toNat)

/-- The bytes over which the marshalling function calls `sha1`. -/
def marshalled : UnmarshalCall → List UInt8
  | byte val => [val]
  | uint16 val => be16 val
  | uint32 val => be32 val
  | array data _ => data.getD []

/-- The bytes of the buffer that a call with an unpack context takes. -/
def consumed (m : Machine σ) (call : UnmarshalCall) : List UInt8 :=
  m.readBuffer m.locals.uctx.bytesUnpacked.toNat call.size.toNat m.locals.uctx.unpackBuffer

/-- The bytes over which a call with an unpack context calls `sha1`: those of the
destination, which a null pointer puts at address zero. -/
def hashed (m : Machine σ) (call : UnmarshalCall) : List UInt8 :=
  match call with
  | array none size => read m.mem 0 size.toNat
  | _ => call.consumed m

/-- The hash is fed what it should be fed. -/
structure Agrees (m : Machine σ) (call : UnmarshalCall) : Prop where
  alone : (∀ size, call ≠ array none size) → call.hashedAlone m = call.marshalled
  unpacked : call.hashed m = call.consumed m

/-- The exceptions: a nonzero 16-bit word, and an array with a null destination unless
the bytes at address zero happen to be those of the buffer. -/
def Faithful (m : Machine σ) (call : UnmarshalCall) : Prop :=
  match call with
  | byte _ => True
  | uint16 val => val = 0
  | uint32 _ => True
  | array data _ => data = none → read m.mem 0 call.size.toNat = call.consumed m

theorem unmarshal_alone (call : UnmarshalCall) {sctx : HashPtr} (given : sctx ≠ .null)
    (m : Machine σ) :
    call.unmarshal .null sctx m = hashBytes (call.hashedAlone m) sctx m := by
  cases call with
  | byte val =>
      rw [unmarshal, unmarshalBYTE, assert, if_pos (.inr given), pure_bind, if_pos rfl,
        bind_assoc]
      exact congrFun (bind_pure_unit (x := hashBytes [val] sctx)) m
  | uint16 val =>
      rw [unmarshal, unmarshalUINT16, assert, if_pos (.inr given), pure_bind, if_pos rfl,
        bind_assoc]
      exact congrFun (bind_pure_unit (x := hashBytes _ sctx)) m
  | uint32 val =>
      rw [unmarshal, unmarshalUINT32, assert, if_pos (.inr given), pure_bind, if_pos rfl,
        bind_assoc]
      exact congrFun (bind_pure_unit (x := hashBytes (be32 val) sctx)) m
  | array data size =>
      rw [unmarshal, unmarshalArray, assert, if_pos (.inr given), pure_bind, if_pos rfl,
        bind_assoc, Prog.bind_get, bind_assoc]
      exact congrFun (bind_pure_unit (x := hashBytes _ sctx)) m

/-- After bytes were taken, the hash is fed a function of them. -/
theorem unpackBytes_then {size : UInt32} {m : Machine σ} {first second : List UInt8 → Boot σ Unit}
    (same : ∀ reached, reached.mem = m.mem →
      first (m.readBuffer m.locals.uctx.bytesUnpacked.toNat size.toNat
        m.locals.uctx.unpackBuffer) reached =
      second (m.readBuffer m.locals.uctx.bytesUnpacked.toNat size.toNat
        m.locals.uctx.unpackBuffer) reached) :
    (unpackBytes size >>= first) m = (unpackBytes size >>= second) m := by
  rw [Prog.bind_apply, Prog.bind_apply, unpackBytes_eq]
  by_cases fits : m.locals.uctx.bytesUnpacked + size ≤ m.locals.uctx.size
  · rw [if_pos fits]
    exact same _ rfl
  · rw [if_neg fits]

theorem unmarshal_unpacked (call : UnmarshalCall) (sctx : HashPtr) (m : Machine σ) :
    call.unmarshal .given sctx m =
      (do
        let _ ← unpackBytes call.size
        hashBytes (call.hashed m) sctx) m := by
  have given : ContextPtr.given ≠ .null := by decide
  cases call with
  | byte val =>
      rw [unmarshal, unmarshalBYTE, assert, if_pos (.inl given), pure_bind, if_neg given,
        bind_assoc]
      refine unpackBytes_then fun reached _ => ?_
      rw [bind_assoc]
      exact congrFun (bind_pure_unit (x := hashBytes _ sctx)) reached
  | uint16 val =>
      rw [unmarshal, unmarshalUINT16, assert, if_pos (.inl given), pure_bind, if_neg given,
        bind_assoc]
      refine unpackBytes_then fun reached _ => ?_
      rw [bind_assoc]
      exact congrFun (bind_pure_unit (x := hashBytes _ sctx)) reached
  | uint32 val =>
      rw [unmarshal, unmarshalUINT32, assert, if_pos (.inl given), pure_bind, if_neg given,
        bind_assoc]
      refine unpackBytes_then fun reached _ => ?_
      rw [bind_assoc]
      exact congrFun (bind_pure_unit (x := hashBytes _ sctx)) reached
  | array data size =>
      rw [unmarshal, unmarshalArray, assert, if_pos (.inl given), pure_bind, if_neg given,
        bind_assoc]
      refine unpackBytes_then fun reached memory => ?_
      rw [bind_assoc, Prog.bind_get, bind_assoc]
      cases data with
      | none =>
          rw [Option.map_none, Option.getD_none, memory]
          exact congrFun (bind_pure_unit (x := hashBytes _ sctx)) reached
      | some data =>
          exact congrFun (bind_pure_unit (x := hashBytes _ sctx)) reached

/-- The conversion of a 16-bit word by `htonl` leaves zeros in its lower half. -/
theorem hashedWord_eq_zero (val : UInt16) :
    (be16 (byteSwap val.toUInt32).toUInt16).reverse = [0, 0] := by
  have small := val.toNat_lt
  have third : val.toNat / 65536 = 0 := Nat.div_eq_of_lt small
  have fourth : val.toNat / 16777216 = 0 := Nat.div_eq_of_lt (by omega)
  have swapped : (byteSwap val.toUInt32).toNat % 65536 = 0 := by
    simp only [byteSwap, be32, ofBe32, ofBytes, List.reverse_cons, List.reverse_nil,
      List.nil_append, List.cons_append, List.foldl_cons, List.foldl_nil,
      UInt32.toNat_ofNat', UInt8.toNat_ofNat', UInt16.toNat_toUInt32, third, fourth]
    omega
  have low : (byteSwap val.toUInt32).toUInt16 = 0 := by
    apply UInt16.toNat_inj.mp
    rw [UInt32.toNat_toUInt16]
    exact swapped
  rw [low]
  rfl

theorem agrees_iff (m : Machine σ) (call : UnmarshalCall) :
    call.Agrees m ↔ call.Faithful m := by
  cases call with
  | byte val => exact iff_of_true ⟨fun _ => rfl, rfl⟩ trivial
  | uint16 val =>
      constructor
      · rintro ⟨alone, -⟩
        have same : be16 val = [0, 0] :=
          (alone (by simp)).symm.trans (hashedWord_eq_zero val)
        have value := congrArg ofBe16 same
        rw [ofBe16_be16] at value
        exact value
      · rintro rfl
        exact ⟨fun _ => rfl, rfl⟩
  | uint32 val => exact iff_of_true ⟨fun _ => rfl, rfl⟩ trivial
  | array data size =>
      cases data with
      | none =>
          constructor
          · rintro ⟨-, unpacked⟩ -
            exact unpacked
          · intro faithful
            exact ⟨fun given => (given size rfl).elim, faithful rfl⟩
      | some data => exact iff_of_true ⟨fun _ => rfl, rfl⟩ (by rintro ⟨⟩)

/-- What the functions feed the hash, and when it is what they should feed it. -/
theorem hashes_agree_iff (m : Machine σ) (call : UnmarshalCall) :
    (∀ sctx, sctx ≠ .null →
      call.unmarshal .null sctx m = hashBytes (call.hashedAlone m) sctx m) ∧
    (∀ sctx, (∀ size, call ≠ array none size) →
      call.marshal sctx m = hashBytes call.marshalled sctx m) ∧
    (∀ sctx, call.unmarshal .given sctx m =
      (do
        let _ ← unpackBytes call.size
        hashBytes (call.hashed m) sctx) m) ∧
    (call.Agrees m ↔ call.Faithful m) := by
  refine ⟨fun sctx given => unmarshal_alone call given m, fun sctx valued => ?_,
    fun sctx => unmarshal_unpacked call sctx m, agrees_iff m call⟩
  cases call with
  | byte val => exact congrFun (bind_pure_unit (x := hashBytes [val] sctx)) m
  | uint16 val => exact congrFun (bind_pure_unit (x := hashBytes (be16 val) sctx)) m
  | uint32 val => exact congrFun (bind_pure_unit (x := hashBytes (be32 val) sctx)) m
  | array data size =>
      cases data with
      | none => exact (valued size rfl).elim
      | some data => exact congrFun (bind_pure_unit (x := hashBytes data sctx)) m

/-- The word `1` and a null destination, with bytes at address zero that are not those
of the output buffer. -/
theorem hashes_disagree :
    ¬ (uint16 1).Agrees (Machine.blank ()) ∧
      ¬ (array none 1).Agrees { Machine.blank () with
        tisOut := fun _ => 1
        locals := { (Machine.blank ()).locals with uctx := ⟨.tisOut, 0, 1024⟩ } } := by
  constructor
  · rintro ⟨alone, -⟩
    exact absurd (alone (by simp)) (by decide)
  · rintro ⟨-, unpacked⟩
    exact absurd unpacked (by decide)

end UnmarshalCall

end Hashes

section Bounds

variable {σ : Type}

/-- `marshal_TPM_SECRET`. -/
def marshalTpmSecret (val : Block 20) (ctx : ContextPtr) (sctx : HashPtr) : Boot σ Unit :=
  marshalBytes val.bytes ctx sctx

/-- The calls of the marshalling functions with a pack context. -/
inductive MarshalCall
  | byte (val : UInt8) (sctx : HashPtr)
  | uint16 (val : UInt16) (sctx : HashPtr)
  | uint32 (val : UInt32) (sctx : HashPtr)
  | secret (val : Block 20) (sctx : HashPtr)
  | array (data size : UInt32) (sctx : HashPtr)

/-- The program aborts, or it packs exactly `size` bytes behind those already there and
inside the buffer. -/
def Bounded (m : Machine σ) (program : Boot σ Unit) (size : UInt32) : Prop :=
  (∃ reached, program m = .halt .exit reached) ∨
    ∃ reached bytes, program m = .ok () reached ∧ bytes.length = size.toNat ∧
      { reached with locals := m.locals } =
        m.writeBuffer m.locals.pctx.bytesPacked.toNat bytes m.locals.pctx.packBuffer ∧
      reached.locals.uctx = m.locals.uctx ∧
      reached.locals.pctx.packBuffer = m.locals.pctx.packBuffer ∧
      reached.locals.pctx.size = m.locals.pctx.size ∧
      reached.locals.pctx.bytesPacked.toNat =
        m.locals.pctx.bytesPacked.toNat + size.toNat ∧
      reached.locals.pctx.bytesPacked ≤ m.locals.pctx.size

/-- The context of a buffer that exists, filled up to a position inside it. -/
structure Machine.Packs (m : Machine σ) : Prop where
  buffer : m.locals.pctx.packBuffer ≠ .mem 0
  bound : m.locals.pctx.bytesPacked ≤ m.locals.pctx.size

theorem hashBytes_preserves (bytes : List UInt8) (sctx : HashPtr) :
    Prog.Preserves (fun m => (m.mem, m.heap, m.locals.uctx, m.locals.pctx))
      (hashBytes bytes sctx : Boot σ Unit) := by
  refine Prog.Preserves.bind (fun _ => rfl) fun m => Prog.Preserves.ite ?_ fun _ => rfl
  cases sctx with
  | null => exact fun _ => rfl
  | plain => exact fun _ => rfl
  | keyed => exact fun _ => rfl

theorem hashBytes_run {bytes : List UInt8} {sctx : HashPtr} {m : Machine σ}
    (room : sctx.Room bytes m.locals) :
    ∃ plain keyed, hashBytes bytes sctx m = .ok () (m.withHashes plain keyed) := by
  rw [hashBytes_eq, if_pos room]
  cases sctx with
  | null => exact ⟨m.locals.sctx, m.locals.hctx, rfl⟩
  | plain => exact ⟨_, m.locals.hctx, rfl⟩
  | keyed => exact ⟨m.locals.sctx, _, rfl⟩

/-- What packing does to a context of an existing buffer. -/
theorem packBytes_eq {m : Machine σ} (buffer : m.locals.pctx.packBuffer ≠ .mem 0)
    {bytes : List UInt8} {size : UInt32} (length : bytes.length = size.toNat) :
    packBytes bytes m =
      if m.locals.pctx.bytesPacked + size ≤ m.locals.pctx.size then
        .ok () { m.writeBuffer m.locals.pctx.bytesPacked.toNat bytes
            m.locals.pctx.packBuffer with
          locals := { m.locals with pctx := { m.locals.pctx with
            bytesPacked := m.locals.pctx.bytesPacked + size } } }
      else .halt .exit m := by
  have word : UInt32.ofNat bytes.length = size := by rw [length, UInt32.ofNat_toNat]
  have same : (m.writeBuffer m.locals.pctx.bytesPacked.toNat bytes
      m.locals.pctx.packBuffer).locals = m.locals := by
    cases m.locals.pctx.packBuffer <;> rfl
  rw [packBytes, Prog.bind_get]
  simp only [word]
  split
  · simp only [Prog.modify_apply, same]
  · rfl

theorem writeBuffer_withHashes (m : Machine σ) (plain : Sha1Context) (keyed : HmacContext)
    (offset : Nat) (bytes : List UInt8) (buffer : BufferPtr) :
    { (m.withHashes plain keyed).writeBuffer offset bytes buffer with locals := m.locals } =
      m.writeBuffer offset bytes buffer := by
  cases buffer <;> rfl

theorem bounded_of_halt {m reached : Machine σ} {program : Boot σ Unit} {size : UInt32}
    (halts : program m = .halt .exit reached) : Bounded m program size :=
  .inl ⟨reached, halts⟩

theorem marshalBytes_run {m : Machine σ} (buffer : m.locals.pctx.packBuffer ≠ .mem 0)
    {bytes : List UInt8} {size : UInt32} (length : bytes.length = size.toNat)
    {sctx : HashPtr} (room : sctx.Room bytes m.locals) :
    ∃ plain keyed, marshalBytes bytes .given sctx m =
      if m.locals.pctx.bytesPacked + size ≤ m.locals.pctx.size then
        .ok () { (m.withHashes plain keyed).writeBuffer m.locals.pctx.bytesPacked.toNat bytes
            m.locals.pctx.packBuffer with
          locals := { (m.withHashes plain keyed).locals with pctx := { m.locals.pctx with
            bytesPacked := m.locals.pctx.bytesPacked + size } } }
      else .halt .exit (m.withHashes plain keyed) := by
  obtain ⟨plain, keyed, hashes⟩ := hashBytes_run room
  exact ⟨plain, keyed,
    (Prog.bind_ok hashes _).trans (packBytes_eq (m := m.withHashes plain keyed) buffer length)⟩

/-- Packing is bounded exactly if `sha1` stays inside its buffer and the sum of the check
does not wrap around. -/
theorem marshalBytes_bounded_iff {m : Machine σ} (packs : m.Packs) {bytes : List UInt8}
    {size : UInt32} (length : bytes.length = size.toNat) (sctx : HashPtr) :
    Bounded m (marshalBytes bytes .given sctx) size ↔
      sctx.Room bytes m.locals ∧
        m.locals.pctx.bytesPacked.toNat + size.toNat < 2 ^ 32 := by
  by_cases room : sctx.Room bytes m.locals
  swap
  · have overrun : marshalBytes bytes .given sctx m = .halt .overrun m :=
      Prog.bind_halt ((hashBytes_eq bytes sctx m).trans (if_neg room)) _
    refine iff_of_false ?_ fun both => room both.1
    rintro (⟨reached, halts⟩ | ⟨reached, written, returns, -⟩)
    · rw [overrun] at halts
      cases halts
    · rw [overrun] at returns
      cases returns
  rw [and_iff_right room]
  obtain ⟨plain, keyed, run⟩ := marshalBytes_run packs.buffer length room
  have bound := UInt32.le_iff_toNat_le.mp packs.bound
  have sum := UInt32.toNat_add m.locals.pctx.bytesPacked size
  by_cases fits : m.locals.pctx.bytesPacked + size ≤ m.locals.pctx.size
  · replace run := run.trans (if_pos fits)
    constructor
    · rintro (⟨reached, halts⟩ | ⟨reached, written, returns, -, -, -, -, -, grows, -⟩)
      · rw [run] at halts
        exact absurd halts (by simp)
      · rw [run] at returns
        injection returns with _ same
        rw [← same] at grows
        have last := (m.locals.pctx.bytesPacked + size).toNat_lt
        exact grows ▸ last
    · intro small
      right
      refine ⟨_, bytes, run, length, ?_, rfl, rfl, rfl, ?_, fits⟩
      · exact writeBuffer_withHashes m plain keyed _ bytes m.locals.pctx.packBuffer
      · exact sum.trans (Nat.mod_eq_of_lt small)
  · replace run := run.trans (if_neg fits)
    constructor
    · intro _
      by_contra wraps
      apply fits
      apply UInt32.le_iff_toNat_le.mpr
      have first := m.locals.pctx.bytesPacked.toNat_lt
      have second := size.toNat_lt
      omega
    · intro _
      exact bounded_of_halt run

namespace MarshalCall

def run : MarshalCall → Boot σ Unit
  | byte val sctx => marshalBYTE val .given sctx
  | uint16 val sctx => marshalUINT16 val .given sctx
  | uint32 val sctx => marshalUINT32 val .given sctx
  | secret val sctx => marshalTpmSecret val .given sctx
  | array data size sctx => marshalArray data size .given sctx

/-- The number of bytes that the call packs. -/
def size : MarshalCall → UInt32
  | byte _ _ => 1
  | uint16 _ _ => 2
  | uint32 _ _ => 4
  | secret _ _ => 20
  | array _ size _ => size

/-- The hash context of the call. -/
def sctx : MarshalCall → HashPtr
  | byte _ sctx | uint16 _ sctx | uint32 _ sctx | secret _ sctx | array _ _ sctx => sctx

/-- If the call has a hash context, the index of the context lies in its buffer, and with
the size of the call it does not wrap around. -/
def HashFits (m : Machine σ) (call : MarshalCall) : Prop :=
  ∀ ctx ∈ call.sctx.context m.locals, ctx.index < 64 ∧ call.size.toNat + ctx.index < 2 ^ 32

/-- The assertion of `marshal_array` fails. -/
def Null : MarshalCall → Prop
  | array data _ _ => data = 0
  | _ => False

theorem run_null {call : MarshalCall} (null : call.Null) (m : Machine σ) :
    call.run m = .halt .exit m := by
  cases call with
  | byte val sctx => exact null.elim
  | uint16 val sctx => exact null.elim
  | uint32 val sctx => exact null.elim
  | secret val sctx => exact null.elim
  | array data size sctx =>
      have zero : ¬ data ≠ 0 := not_not.mpr null
      rw [run, marshalArray, assert, if_neg zero]
      rfl

theorem run_given {call : MarshalCall} (given : ¬ call.Null) (m : Machine σ) :
    ∃ bytes, bytes.length = call.size.toNat ∧
      call.run m = marshalBytes bytes .given call.sctx m := by
  cases call with
  | byte val sctx => exact ⟨[val], rfl, rfl⟩
  | uint16 val sctx => exact ⟨be16 val, length_be16 val, rfl⟩
  | uint32 val sctx => exact ⟨be32 val, length_be32 val, rfl⟩
  | secret val sctx => exact ⟨val.bytes, val.length_eq, rfl⟩
  | array data size sctx =>
      refine ⟨read m.mem data.toNat size.toNat, length_read _ _ _, ?_⟩
      have nonzero : data ≠ 0 := given
      rw [run, marshalArray, assert, if_pos nonzero]
      rfl

/-- The call is bounded if its assertion fails, and else exactly if neither the sum in the
hash nor the sum of the check wraps around. -/
theorem bounded_iff {m : Machine σ} (packs : m.Packs) (call : MarshalCall) :
    Bounded m call.run call.size ↔
      call.Null ∨ (call.HashFits m ∧
        m.locals.pctx.bytesPacked.toNat + call.size.toNat < 2 ^ 32) := by
  by_cases null : call.Null
  · exact iff_of_true (bounded_of_halt (run_null null m)) (.inl null)
  · obtain ⟨bytes, length, same⟩ := run_given null m
    have packing := marshalBytes_bounded_iff packs length call.sctx
    rw [Bounded, ← same, HashPtr.Room, length] at packing
    exact packing.trans ⟨.inr, fun fits => fits.resolve_left null⟩

/-- Every call of a sequence is bounded, as far as the calls before it return. -/
def AllBounded : Machine σ → List MarshalCall → Prop
  | _, [] => True
  | m, call :: calls =>
      Bounded m call.run call.size ∧
        ∀ reached, call.run m = .ok () reached → AllBounded reached calls

/-- No sum in the hash or in the check wraps around, as far as the sizes before it fit the
buffer. -/
def NoWrap (size : UInt32) : Nat → Machine σ → List MarshalCall → Prop
  | _, _, [] => True
  | packed, m, call :: calls =>
      call.Null ∨ (call.HashFits m ∧ packed + call.size.toNat < 2 ^ 32 ∧
        (packed + call.size.toNat ≤ size.toNat → ∀ reached, call.run m = .ok () reached →
          NoWrap size (packed + call.size.toNat) reached calls))

/-- A call that is bounded and returns leaves a context filled up to a position inside
the buffer. -/
theorem packs_of_bounded {m reached : Machine σ} (packs : m.Packs) {call : MarshalCall}
    (bounded : Bounded m call.run call.size) (returns : call.run m = .ok () reached) :
    reached.Packs ∧ reached.locals.pctx.size = m.locals.pctx.size ∧
      reached.locals.pctx.bytesPacked.toNat =
        m.locals.pctx.bytesPacked.toNat + call.size.toNat := by
  obtain ⟨other, halts⟩ | ⟨other, bytes, same, -, -, -, buffer, size, grows, bound⟩ := bounded
  · rw [returns] at halts
    exact absurd halts (by simp)
  · rw [returns] at same
    injection same with _ same
    subst same
    exact ⟨⟨buffer ▸ packs.buffer, size ▸ bound⟩, size, grows⟩

theorem allBounded_iff {m : Machine σ} (packs : m.Packs) (calls : List MarshalCall) :
    AllBounded m calls ↔
      NoWrap m.locals.pctx.size m.locals.pctx.bytesPacked.toNat m calls := by
  induction calls generalizing m with
  | nil => exact Iff.rfl
  | cons call calls ih =>
      have one := bounded_iff packs call
      constructor
      · rintro ⟨bounded, rest⟩
        obtain null | ⟨hash, fits⟩ := one.mp bounded
        · exact .inl null
        · refine .inr ⟨hash, fits, fun _ reached returns => ?_⟩
          obtain ⟨next, size, grows⟩ := packs_of_bounded packs bounded returns
          have following := (ih next).mp (rest reached returns)
          rwa [size, grows] at following
      · intro fits
        have bounded := one.mpr (fits.imp_right fun all => ⟨all.1, all.2.1⟩)
        refine ⟨bounded, fun reached returns => ?_⟩
        obtain ⟨next, size, grows⟩ := packs_of_bounded packs bounded returns
        obtain null | ⟨-, -, rest⟩ := fits
        · rw [run_null null] at returns
          exact absurd returns (by simp)
        · have inside := UInt32.le_iff_toNat_le.mp next.bound
          rw [size, grows] at inside
          apply (ih next).mpr
          rw [size, grows]
          exact rest inside reached returns

/-- The calls on a context that was initialised with a buffer: all of them are bounded
exactly if no sum of the hashes and of the checks wraps around. -/
theorem packed_within_iff (buffer : BufferPtr) (size : UInt32) (m start : Machine σ)
    (present : buffer ≠ .mem 0) (init : packInit buffer size m = .ok () start)
    (calls : List MarshalCall) :
    AllBounded start calls ↔ NoWrap size 0 start calls := by
  injection init with _ same
  subst same
  have packs : Machine.Packs { m with locals := { m.locals with pctx := ⟨buffer, 0, size⟩ } } :=
    ⟨present, UInt32.zero_le⟩
  exact allBounded_iff packs calls

/-- The header of a frame. -/
theorem packed_within_header :
    ∃ start, packInit .tisIn 1024 (Machine.blank ()) = .ok () start ∧
      AllBounded start [uint16 0xC1 .null, uint32 10 .null, uint32 0x46 .plain] := by
  refine ⟨_, rfl, (packed_within_iff .tisIn 1024 (Machine.blank ()) _ (by decide) rfl _).mpr ?_⟩
  refine .inr ⟨by simp [HashFits, sctx, HashPtr.context], by decide, fun _ reached run => ?_⟩
  with_unfolding_all obtain ⟨-, rfl⟩ := Outcome.ok.inj run
  refine .inr ⟨by simp [HashFits, sctx, HashPtr.context], by decide, fun _ reached run => ?_⟩
  with_unfolding_all obtain ⟨-, rfl⟩ := Outcome.ok.inj run
  refine .inr ⟨?_, by decide, fun _ reached run => trivial⟩
  rintro ctx ⟨⟩
  decide

/-- One byte, and then an array of all but one byte of the address space. -/
theorem packed_beyond_buffer :
    ¬ ∃ start, packInit .tisIn 1024 (Machine.blank ()) = .ok () start ∧
      AllBounded start [byte 0 .null, array 1 0xFFFFFFFF .null] := by
  rintro ⟨start, init, bounded⟩
  injection init with _ same
  subst same
  obtain ⟨-, rest⟩ := bounded
  have second := (rest _ (by with_unfolding_all rfl)).1
  have fits := (bounded_iff ⟨by decide, by decide⟩ _).mp second
  obtain null | ⟨-, small⟩ := fits
  · cases null
  · revert small
    decide

end MarshalCall

end Bounds

end Sable
