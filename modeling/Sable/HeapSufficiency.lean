import Sable.BootFrames
import Sable.ParserReads
import Sable.ReceivedBytes
import Sable.StoredDataCodec

/-!
# The heap suffices

The heap is never freed, and the sizes of some blocks come from the responses of the
TPM.  Still no run of `configure` or `trusted_boot` on a fresh heap of 8192 bytes gets
a null pointer from an allocation whose result is used without a test.

To say so, the functions with such allocations are given once more with the allocator
as a parameter.  With `alloc` they are the functions of the boot flow, and with an
allocator that calls a handler in place of returning null they run in the same way,
whatever the handler does.  The invariant bounds the units of the heap that are in use
and knows the blocks through which the functions write.
-/

namespace Sable

open ByteMemory BigEndian HaltingProgram

section Allocator

variable {σ : Type} (device : TisDevice σ) (allocate : UInt32 → Boot σ UInt32)

def allocSessionWith : Boot σ UInt32 := do
  let ptr ← allocate 49
  Prog.modify fun m =>
    let field := fun offset len => read m.mem (ptr.toNat + offset) len
    { m with
      sessionAt := Function.update m.sessionAt ptr
        { authHandle := load32 m.mem ptr.toNat
          nonceEven := Block.ofList 20 (field 4 20)
          nonceOdd := Block.ofList 20 (field 24 20)
          continueAuthSession := m.mem (ptr.toNat + 44)
          osap := load32 m.mem (ptr.toNat + 45) } }
  pure ptr

def allocOsapWith : Boot σ UInt32 := do
  let ptr ← allocate 40
  Prog.modify fun m =>
    { m with
      osapAt := Function.update m.osapAt ptr
        { nonceEvenOSAP := Block.ofList 20 (read m.mem ptr.toNat 20)
          nonceOddOSAP := Block.ofList 20 (read m.mem (ptr.toNat + 20) 20) } }
  pure ptr

def unmarshalOIAPWith (session : SessionSlot) : Boot σ (Result Unit) := do
  let s ← allocSessionWith allocate
  setSlot session s
  emit (.opened s none)
  assert (s ≠ 0)
  let authHandle ← unmarshalUINT32 0 .given .null
  let nonceEven ← unmarshalObject default .given .null
  updateSession s fun object =>
    { object with authHandle := authHandle, nonceEven := nonceEven, osap := 0 }
  return .ok ()

def tpmOIAPWith (session : SessionSlot) : Boot σ (Result Unit) :=
  command ordOIAP <|
    plainCommand device ordOIAP (2 + 4 + 4) [] (pure ()) ()
      (unmarshalOIAPWith allocate session)

def unmarshalOSAPWith (nonceOddOSAP : Block 20) (session : SessionSlot) :
    Boot σ (Result UInt32) := do
  let s ← allocSessionWith allocate
  setSlot session s
  emit (.opened s (some nonceOddOSAP))
  let osap ← allocOsapWith allocate
  updateSession s fun object => { object with osap := osap }
  let authHandle ← unmarshalUINT32 0 .given .null
  let nonceEven ← unmarshalObject default .given .null
  updateSession s fun object =>
    { object with authHandle := authHandle, nonceEven := nonceEven }
  if osap = 0 then
    let _ ← unmarshalArray none 20 .given .null
    return .ok osap
  let nonceEvenOSAP ← unmarshalObject default .given .null
  updateOsap osap fun extension => { extension with nonceEvenOSAP := nonceEvenOSAP }
  return .ok osap

def tpmOSAPWith (entityTypeIn : UInt16) (entityValueIn : UInt32)
    (nonceOddOSAP : Block 20) (session : SessionSlot) : Boot σ (Result Unit) :=
  command ordOSAP do
    let ret ← plainCommand device ordOSAP (2 + 4 + 4 + 2 + 4 + 20) [(0, nonceOddOSAP)]
      (do
        marshalUINT16 entityTypeIn .given .null
        marshalUINT32 entityValueIn .given .null
        marshalObject nonceOddOSAP .given .null) 0
      (unmarshalOSAPWith allocate nonceOddOSAP session)
    if ret.exception ≠ .none then return .error ret.exception ()
    updateOsap ret.value fun extension => { extension with nonceOddOSAP := nonceOddOSAP }
    return .ok ()

def getPcrInfoWith : Boot σ (Result TpmPcrInfoLong) := do
  let pcrValues ← allocate (2 * 20)
  let pcrSelectBytes ← allocate 3
  storeBytes pcrSelectBytes 0 [0x00]
  storeBytes pcrSelectBytes 1 [0x00]
  storeBytes pcrSelectBytes 2 [0x0c]
  let pcrSelect : TpmPcrSelection := ⟨3, pcrSelectBytes⟩
  let pcr18 ← tpmPCRRead device 18
  if pcr18.exception ≠ .none then return .error pcr18.exception emptyPcrInfo
  storeBytes pcrValues 0 pcr18.value.bytes
  let pcr19 ← tpmPCRRead device 19
  if pcr19.exception ≠ .none then return .error pcr19.exception emptyPcrInfo
  storeBytes pcrValues 20 pcr19.value.bytes
  let compositeHash ← getTpmCompositeHash ⟨pcrSelect, 2 * 20, pcrValues⟩
  return .ok ⟨tagPcrInfoLong, locTwo, locTwo, pcrSelect, pcrSelect, compositeHash,
    compositeHash⟩

def sealPassphraseWith (srkAuth ppAuth : Block 20) (passphrase lenPassphrase : UInt32) :
    Boot σ (Result TpmStoredData12) := do
  let nonceOddOSAP ← getNonce device
  if nonceOddOSAP.exception ≠ .none then
    return .error nonceOddOSAP.exception emptyStoredData12
  let osapRet ← tpmOSAPWith device allocate etKeyhandle khSRK nonceOddOSAP.value .zero
  if osapRet.exception ≠ .none then
    return .error osapRet.exception emptyStoredData12
  let nonceOdd ← getNonce device
  if nonceOdd.exception ≠ .none then
    return .error nonceOdd.exception emptyStoredData12
  setNonceOdd .zero nonceOdd.value
  endAfterCommand .zero
  let sharedSecret ← sessionSecret srkAuth
  let s ← getSlot .zero
  let session ← loadSession s
  let encAuth := encAuthGen ppAuth sharedSecret session.nonceEven
  let pcrInfo ← getPcrInfoWith device allocate
  if pcrInfo.exception ≠ .none then
    return .error pcrInfo.exception emptyStoredData12
  tpmSeal device khSRK encAuth pcrInfo.value passphrase lenPassphrase .zero sharedSecret

def extractStoredData12With (storedData : TpmStoredData12) :
    Boot σ (UInt32 × UInt32) := do
  let size := sizeofStoredData12 storedData
  let data ← allocate size
  let _ ← packStoredData12 data size storedData
  return (data, size)

def writePassphraseWith (nvAuth : Block 20) (sealedData : TpmStoredData12)
    (index size : UInt32) : Boot σ (Result Unit) := do
  let oiapRet ← tpmOIAPWith device allocate .zero
  if oiapRet.exception ≠ .none then return .error oiapRet.exception ()
  let nonceOdd ← getNonce device
  if nonceOdd.exception ≠ .none then return .error nonceOdd.exception ()
  setNonceOdd .zero nonceOdd.value
  endAfterCommand .zero
  let x ← extractStoredData12With allocate sealedData
  tpmNvWriteValueAuth device x.1 size index 0 nvAuth .zero

/-- `configure` with the allocator as a parameter. -/
def configureWith (index size : UInt32) : Boot σ (Result Unit) := do
  let passphrase ← allocate passphraseStrSize
  outString (text "Please enter the passphrase (128 char max): ")
  let length ← getStringAt passphrase 127 true
  let lenPassphrase := UInt32.ofNat length + 1
  outString (text "Please enter the passPhraseAuthData (64 char max): ")
  let ppAuth ← getAuthdata
  if ppAuth.exception ≠ .none then return .error ppAuth.exception ()
  outString (text "Please enter the srkAuthData (64 char max): ")
  let srkAuth ← getAuthdata
  if srkAuth.exception ≠ .none then return .error srkAuth.exception ()
  let sealedData ← sealPassphraseWith device allocate srkAuth.value ppAuth.value passphrase
    lenPassphrase
  if sealedData.exception ≠ .none then return .error sealedData.exception ()
  outString (text "Please enter the nvAuthData (64 char max): ")
  let nvAuth ← getAuthdata
  if nvAuth.exception ≠ .none then return .error nvAuth.exception ()
  writePassphraseWith device allocate nvAuth.value sealedData.value index size

def unsealPassphraseWith (srkAuth ppAuth : Block 20) (sealedPp : TpmStoredData12) :
    Boot σ (Result UInt32) := do
  let nonceOdd ← getNonce device
  let srkOsapRet ← tpmOSAPWith device allocate etKeyhandle khSRK nonceOdd.value .zero
  if srkOsapRet.exception ≠ .none then return .error srkOsapRet.exception 0
  endAfterCommand .zero
  let sharedSecret ← sessionSecret srkAuth
  let ppOiapRet ← tpmOIAPWith device allocate .one
  if ppOiapRet.exception ≠ .none then return .error ppOiapRet.exception 0
  let nonceOdd ← getNonce device
  if nonceOdd.exception ≠ .none then return .error nonceOdd.exception 0
  setNonceOdd .one nonceOdd.value
  endAfterCommand .one
  let unsealRet ← tpmUnseal device sealedPp khSRK sharedSecret .zero ppAuth .one
  if unsealRet.exception ≠ .none then return .error unsealRet.exception 0
  return .ok unsealRet.value.data

def confirmPassphraseWith (passphrase : UInt32) : Boot σ Unit := do
  outString (text "Please confirm that the passphrase is correct:\n\n")
  let shown ← loadString passphrase
  outString shown
  outString (text "\n\nIf this is correct, please type YES in all capitals: ")
  let yesString ← allocate 4
  let _ ← getStringAt yesString 4 true
  let m ← Prog.get
  if read m.mem yesString.toNat 3 ≠ text "YES" then Prog.halt .reboot
  else emit .confirmed

/-- `trusted_boot` with the allocator as a parameter. -/
def trustedBootWith (index size : UInt32) : Boot σ (Result Unit) := do
  let sealedPp ← readPassphrase device index size
  if sealedPp.exception ≠ .none then return .error sealedPp.exception ()
  outString (text "Please enter the passPhraseAuthData (64 char max): ")
  let ppAuth ← getAuthdata
  if ppAuth.exception ≠ .none then return .error ppAuth.exception ()
  outString (text "Please enter the srkAuthData (64 char max): ")
  let srkAuth ← getAuthdata
  if srkAuth.exception ≠ .none then return .error srkAuth.exception ()
  let passphrase ← unsealPassphraseWith device allocate srkAuth.value ppAuth.value
    sealedPp.value
  if passphrase.exception ≠ .none then return .error passphrase.exception ()
  confirmPassphraseWith allocate passphrase.value
  return .ok ()

theorem configureWith_allocHeap : configureWith device allocHeap = configure device :=
  rfl

theorem trustedBootWith_allocHeap : trustedBootWith device allocHeap = trustedBoot device :=
  rfl

/-- `alloc` with a handler that is called in place of returning null. -/
def allocOr (onNull : Boot σ UInt32) (size : UInt32) : Boot σ UInt32 := do
  let ptr ← allocHeap size
  if ptr = 0 then onNull else pure ptr

end Allocator

section Budget

variable {σ α : Type} {area : HeapArea} {limit more : Nat} {owned : List Allocation}

/-- At most `limit` units of the heap are in use, and the `owned` blocks are among them. -/
structure HeapWithin (area : HeapArea) (limit : Nat) (owned : List Allocation)
    (m : Machine σ) : Prop where
  heap : m.heap = area.heap
  tracked : ∃ used contents, used ≤ limit ∧ Tracks area used contents m.mem ∧
    ∀ block ∈ owned, ∃ bytes, contents block.ptr = some bytes ∧
      bytes.length = block.size.toNat

variable {m reached : Machine σ}

theorem HeapWithin.of_eq (within : HeapWithin area limit owned m) (mem : reached.mem = m.mem)
    (heap : reached.heap = m.heap) : HeapWithin area limit owned reached := by
  refine ⟨heap.trans within.heap, ?_⟩
  rw [mem]
  exact within.tracked

theorem HeapWithin.mono (within : HeapWithin area limit owned m) (larger : limit ≤ more)
    {fewer : List Allocation} (subset : fewer ⊆ owned) : HeapWithin area more fewer m := by
  obtain ⟨used, contents, bound, tracks, known⟩ := within.tracked
  exact ⟨within.heap, used, contents, bound.trans larger, tracks,
    fun block member => known block (subset member)⟩

theorem HeapWithin.grow (within : HeapWithin area limit owned m) (larger : limit ≤ more) :
    HeapWithin area more owned m :=
  within.mono larger (List.Subset.refl owned)

theorem HeapWithin.soundHeap (within : HeapWithin area limit owned m) : SoundHeap area m := by
  obtain ⟨used, contents, -, ⟨blocks, layout, ends, -⟩, -⟩ := within.tracked
  exact ⟨within.heap, used, blocks, layout, ends, by simp⟩

theorem HeapWithin.init (fresh : 0 < area.units) (heap : m.heap = area.heap) {before : Mem}
    (run : initHeap area.heap area.size before = .ok () m.mem) : HeapWithin area 0 [] m :=
  ⟨heap, 0, fun _ => none, Nat.le_refl 0, Tracks.init fresh run, by simp⟩

/-- A block that `alloc` returned, and the budget after it. -/
theorem HeapWithin.alloc (within : HeapWithin area limit owned m) {size ptr : UInt32}
    {mem : Mem} (run : alloc m.heap size m.mem = .ok ptr mem) (nonNull : ptr ≠ 0) :
    HeapWithin area (limit + size.toNat / 8 + 2) (⟨ptr, size⟩ :: owned)
      { m with mem := mem } := by
  obtain ⟨used, contents, bound, tracks, known⟩ := within.tracked
  have positive : 0 < size := by
    by_contra zero
    rw [Sable.alloc, if_neg zero] at run
    cases run
  by_cases room : used + size.toNat / 8 + 2 ≤ area.units
  swap
  · have full := tracks.alloc_full positive room
    rw [← within.heap, run] at full
    cases full
    exact (nonNull rfl).elim
  obtain ⟨block, filled, runs, fresh, tracked⟩ := tracks.alloc positive room
  rw [← within.heap, run] at runs
  cases runs
  refine ⟨within.heap, _, _, by omega, tracked, ?_⟩
  intro held member
  rcases List.mem_cons.mp member with rfl | member
  · exact ⟨_, Function.update_self .., length_read ..⟩
  · obtain ⟨bytes, content, length⟩ := known held member
    refine ⟨bytes, ?_, length⟩
    rw [Function.update_of_ne, content]
    intro same
    rw [same, fresh] at content
    cases content

/-- With room in the budget `alloc` returns a block. -/
theorem HeapWithin.alloc_ok (within : HeapWithin area limit owned m) {size : UInt32}
    (positive : 0 < size) (room : limit + size.toNat / 8 + 2 ≤ area.units) :
    ∃ ptr mem, Sable.alloc m.heap size m.mem = .ok ptr mem ∧ ptr ≠ 0 := by
  obtain ⟨used, contents, bound, tracks, known⟩ := within.tracked
  obtain ⟨ptr, mem, run, fresh, tracked⟩ := tracks.alloc positive (by omega)
  rw [← within.heap] at run
  exact ⟨ptr, mem, run, tracked.nonNull (Function.update_self ..)⟩

/-- A change inside an owned block. -/
theorem HeapWithin.change (within : HeapWithin area limit owned m) {block : Allocation}
    (member : block ∈ owned) (heap : reached.heap = m.heap)
    (agree : ∀ a, a < block.ptr.toNat ∨ block.ptr.toNat + block.size.toNat ≤ a →
      reached.mem a = m.mem a) :
    HeapWithin area limit owned reached := by
  obtain ⟨used, contents, bound, tracks, known⟩ := within.tracked
  obtain ⟨bytes, content, length⟩ := known block member
  rw [← length] at agree
  refine ⟨heap.trans within.heap, used, _, bound, tracks.change content agree, ?_⟩
  intro held heldMember
  by_cases same : held.ptr = block.ptr
  · obtain ⟨others, otherContent, otherLength⟩ := known held heldMember
    rw [same, content] at otherContent
    cases otherContent
    rw [same]
    refine ⟨_, Function.update_self .., ?_⟩
    rw [length_read, otherLength]
  · obtain ⟨others, otherContent, otherLength⟩ := known held heldMember
    exact ⟨others, (Function.update_of_ne same ..).trans otherContent, otherLength⟩

theorem allocOr_agrees (onNull : Boot σ UInt32) {size : UInt32} (positive : 0 < size)
    (room : limit + size.toNat / 8 + 2 ≤ area.units) :
    Prog.Agrees (HeapWithin area limit owned) (allocOr onNull size) (allocHeap size)
      (fun ptr => HeapWithin area (limit + size.toNat / 8 + 2) (⟨ptr, size⟩ :: owned)) := by
  constructor
  · intro m within
    obtain ⟨ptr, mem, run, nonNull⟩ := within.alloc_ok positive room
    rw [allocHeap_ok run]
    exact within.alloc run nonNull
  · intro m within
    obtain ⟨ptr, mem, run, nonNull⟩ := within.alloc_ok positive room
    rw [allocOr, Prog.bind_ok (allocHeap_ok run), if_neg nonNull, Prog.pure_apply,
      allocHeap_ok run]

/-- Programs that leave the memory and the heap alone. -/
theorem within_of_preserves {program : Boot σ α}
    (preserves : Prog.Preserves (fun m => (m.mem, m.heap)) program) :
    Prog.Runs True (HeapWithin area limit owned) program
      (fun _ => HeapWithin area limit owned) := by
  refine Prog.Ends.mono (Prog.Steps.ends preserves ?_) (fun _ within => within)
    (fun _ _ within => within) (fun _ _ => trivial)
  intro m reached within same
  obtain ⟨mem, heap⟩ := Prod.mk.inj same
  exact within.of_eq mem heap

end Budget

section Programs

variable {σ α : Type} {area : HeapArea} {limit more : Nat} {owned : List Allocation}

theorem storeBytes_within {ptr size : UInt32} (member : ⟨ptr, size⟩ ∈ owned)
    {offset : UInt32} {bytes : List UInt8}
    (inside : offset.toNat + bytes.length ≤ size.toNat) :
    Prog.Runs True (HeapWithin area limit owned) (storeBytes ptr offset bytes : Boot σ Unit)
      (fun _ => HeapWithin area limit owned) := by
  refine Prog.Runs.ite (fun _ => Prog.Runs.halt trivial) fun _ => Prog.Runs.modify ?_
  intro m within
  refine within.change member rfl fun a outside => ?_
  exact write_outside m.mem (by dsimp only at outside; omega)

theorem getchar_preserves :
    Prog.Preserves (fun m => (m.mem, m.heap)) (getchar : Boot σ UInt8) := by
  intro m
  unfold getchar
  cases m.keys with
  | nil => rfl
  | cons key keys => rfl

/-- The line fits its buffer, and the rest of the memory is as it was. -/
def LineRead (saved : Mem × UInt32) (strSize : Nat) (str : Mem) (line : Mem × Nat)
    (m : Machine σ) : Prop :=
  (m.mem, m.heap) = saved ∧ line.2 ≤ strSize ∧ ∀ a, strSize < a → line.1 a = str a

theorem getStringLoop_lineRead {saved : Mem × UInt32} {strSize : Nat} (shown : Bool)
    (fuel : Nat) (str : Mem) {i : Nat} (start : i ≤ strSize) :
    Prog.Runs True (fun m : Machine σ => (m.mem, m.heap) = saved)
      (getStringLoop strSize shown fuel str i) (LineRead saved strSize str) := by
  induction fuel generalizing str i with
  | zero => exact Prog.Runs.halt trivial
  | succ fuel ih =>
      have stop : Prog.Runs True (fun m : Machine σ => (m.mem, m.heap) = saved)
          (pure (str, i) : Boot σ _) (LineRead saved strSize str) :=
        Prog.Runs.ret fun _ same => ⟨same, start, fun _ _ => rfl⟩
      have stored {next : Nat} (value : UInt8) (bound : i < strSize) (inside : next ≤ strSize) :
          Prog.Runs True (fun m : Machine σ => (m.mem, m.heap) = saved)
            (getStringLoop strSize shown fuel (write str i [value]) next)
            (LineRead saved strSize str) := by
        refine (ih _ inside).mono (fun _ same => same) fun line _ known => ?_
        obtain ⟨same, length, kept⟩ := known
        refine ⟨same, length, fun a beyond => ?_⟩
        rw [kept a beyond]
        exact write_outside str (by simp only [List.length_singleton]; omega)
      have echo (c : UInt8) : Prog.Runs True (fun m : Machine σ => (m.mem, m.heap) = saved)
          (outChar c) (fun _ m => (m.mem, m.heap) = saved) :=
        Prog.Runs.modify fun _ same => same
      refine Prog.Runs.ite (fun bound => ?_) fun _ => stop
      refine (getchar_preserves.runs (· = saved)).bind fun c => ?_
      refine Prog.Runs.ite (fun _ => stop) fun _ => Prog.Runs.ite (fun _ => ?_) fun _ => ?_
      · refine Prog.Runs.ite (fun _ => ?_) fun _ => stored 0 bound start
        exact Prog.Runs.ite (fun _ => (echo c).bind fun _ => stored 0 bound (by omega))
          fun _ => stored 0 bound (by omega)
      · refine Prog.Runs.ite (fun _ => ih _ start) fun _ => ?_
        exact Prog.Runs.ite (fun _ => (echo c).bind fun _ => stored c bound bound)
          fun _ => stored c bound bound

theorem getString_lineRead {saved : Mem × UInt32} {strSize : Nat} (shown : Bool) (str : Mem) :
    Prog.Runs True (fun m : Machine σ => (m.mem, m.heap) = saved)
      (getString str strSize shown) (LineRead saved strSize str) := by
  refine (getchar_preserves.runs (· = saved)).bind fun _ => ?_
  refine (Prog.Runs.get).bind fun m => ?_
  refine (getStringLoop_lineRead shown _ str (Nat.zero_le _)).bind fun line => ?_
  have echo : Prog.Runs True (LineRead saved strSize str line) (outChar 0x0A : Boot σ Unit)
      (fun _ => LineRead saved strSize str line) :=
    Prog.Runs.modify fun _ known => known
  refine echo.bind fun _ => Prog.Runs.ret fun _ known => ?_
  obtain ⟨same, length, kept⟩ := known
  refine ⟨same, length, fun a beyond => ?_⟩
  rw [← kept a beyond]
  exact write_outside line.1 (by simp only [List.length_singleton]; omega)

/-- A line that fits a block with its end changes this block only. -/
theorem getStringAt_within {ptr size : UInt32} (member : ⟨ptr, size⟩ ∈ owned) {strSize : Nat}
    (inside : strSize < size.toNat) (shown : Bool) :
    Prog.Runs True (HeapWithin area limit owned) (getStringAt ptr strSize shown : Boot σ Nat)
      (fun _ => HeapWithin area limit owned) := by
  intro m within
  rw [getStringAt, Prog.bind_get]
  refine Prog.Runs.bind (getString_lineRead shown _) (fun line => ?_) m rfl
  refine Prog.Runs.ite (fun _ => Prog.Runs.halt trivial) fun _ => ?_
  refine Prog.Runs.bind (Prog.Runs.modify ?_) fun _ => Prog.Runs.ret fun _ known => known
  intro reached known
  obtain ⟨same, length, kept⟩ := known
  obtain ⟨mem, heap⟩ := Prod.mk.inj same
  refine within.change member heap fun a outside => ?_
  dsimp only at outside ⊢
  split
  · rename_i lower
    rw [kept _ (by omega)]
    dsimp only
    rw [Nat.add_sub_of_le lower]
  · rw [mem]

/-- The unpack context stays in a buffer of at most 1024 bytes. -/
def Machine.Unpackable (m : Machine σ) : Prop :=
  m.locals.uctx.bytesUnpacked ≤ m.locals.uctx.size ∧ m.locals.uctx.size ≤ 1024

theorem length_readBuffer (m : Machine σ) (offset len : Nat) (buffer : BufferPtr) :
    (m.readBuffer offset len buffer).length = len := by
  cases buffer with
  | tisIn => exact length_read ..
  | tisOut => exact length_read ..
  | mem addr => exact length_read ..

/-- What a run of `unmarshal_ptr` that returns has done. -/
theorem unmarshalPtr_copies {m reached : Machine σ} {size value : UInt32} {sctx : HashPtr}
    (run : unmarshalPtr size .given sctx m = .ok value reached) :
    ∃ ptr mem bytes, alloc m.heap size m.mem = .ok ptr mem ∧ ptr ≠ 0 ∧
      bytes.length = size.toNat ∧
      m.locals.uctx.bytesUnpacked + size ≤ m.locals.uctx.size ∧
      (reached.mem, reached.heap, reached.locals.uctx, reached.locals.pctx) =
        (write mem ptr.toNat bytes, m.heap, { m.locals.uctx with
          bytesUnpacked := m.locals.uctx.bytesUnpacked + size }, m.locals.pctx) := by
  obtain ⟨fits, ptr, mem, allocates, nonNull⟩ := unmarshalPtr_inv run
  let bytes := { m with mem := mem }.readBuffer m.locals.uctx.bytesUnpacked.toNat size.toNat
    m.locals.uctx.unpackBuffer
  refine ⟨ptr, mem, bytes, allocates, nonNull, length_readBuffer .., fits, ?_⟩
  have peek : peekBytes size { m with mem := mem } = .ok bytes { m with mem := mem } := rfl
  rw [unmarshalPtr, Prog.bind_ok (assert_ok (by decide) m),
    Prog.bind_ok (checkUnpackOverflow_ok fits), Prog.bind_ok (allocHeap_ok allocates),
    Prog.bind_ok (assert_ok nonNull _), Prog.bind_ok peek, Prog.bind_modify, advance,
    Prog.bind_modify, Prog.bind_get] at run
  obtain ⟨_, between, hashed, run⟩ := Prog.bind_eq_ok.mp run
  cases run
  exact (hashBytes_preserves _ _).eq_of_ok hashed

/-- A block whose size passes the test of the unpack context is small. -/
theorem unmarshalPtr_within (size : UInt32) (sctx : HashPtr) :
    Prog.Runs True (fun m : Machine σ => HeapWithin area limit owned m ∧ m.Unpackable)
      (unmarshalPtr size .given sctx)
      (fun _ m => size.toNat ≤ 1024 ∧ HeapWithin area (limit + 130) owned m ∧
        m.Unpackable) := by
  rintro m ⟨within, bound, small⟩
  cases run : unmarshalPtr size .given sctx m with
  | halt reason reached => trivial
  | ok value reached =>
      obtain ⟨ptr, mem, bytes, allocates, nonNull, length, fits, same⟩ := unmarshalPtr_copies run
      obtain ⟨modest, -⟩ := (within.soundHeap.alloc allocates).2 nonNull
      simp only [Prod.mk.injEq] at same
      obtain ⟨memory, heap, context, -⟩ := same
      have size_le : size.toNat ≤ 1024 := by
        rw [UInt32.le_iff_toNat_le] at bound small fits
        rw [UInt32.toNat_add] at fits
        have limit : (1024 : UInt32).toNat = 1024 := rfl
        omega
      refine ⟨size_le, ?_, ?_⟩
      · have filled : HeapWithin area (limit + size.toNat / 8 + 2) (⟨ptr, size⟩ :: owned)
            reached := by
          refine (within.alloc allocates nonNull).change List.mem_cons_self heap ?_
          intro a outside
          rw [memory]
          exact write_outside mem (by dsimp only at outside; omega)
        exact filled.mono (by omega) (List.subset_cons_self _ _)
      · rw [Machine.Unpackable, context]
        exact ⟨fits, small⟩

/-- The blob in a response or a block is not larger than what it came in. -/
def TpmStoredData12.Small (data : TpmStoredData12) : Prop :=
  data.sealInfoSize.toNat ≤ 1024 ∧ data.encDataSize.toNat ≤ 1024

theorem unmarshalStoredData12_small {state : Nat → Machine σ → Prop} {sctx : HashPtr}
    (half : ∀ limit, Prog.Runs True (state limit)
      (unmarshalUINT16 0 .given sctx) (fun _ => state limit))
    (word : ∀ limit, Prog.Runs True (state limit)
      (unmarshalUINT32 0 .given sctx) (fun _ => state limit))
    (block : ∀ limit size, Prog.Runs True (state limit) (unmarshalPtr size .given sctx)
      (fun _ m => size.toNat ≤ 1024 ∧ state (limit + 130) m)) :
    Prog.Runs True (state limit) (unmarshalStoredData12 .given sctx)
      (fun data m => data.Small ∧ state (limit + 260) m) := by
  refine (half limit).bind fun tag => (half limit).bind fun et => ?_
  refine (word limit).bind fun sealInfoSize => (block limit sealInfoSize).bind fun sealInfo => ?_
  refine Prog.Runs.assume fun sealSmall => (word _).bind fun encDataSize => ?_
  refine (block _ encDataSize).bind fun encData => Prog.Runs.assume fun encSmall => ?_
  exact Prog.Runs.ret fun _ holds => ⟨⟨sealSmall, encSmall⟩, holds⟩

theorem unpackBytes_unpackable (size : UInt32) :
    Prog.Runs True (fun m : Machine σ => HeapWithin area limit owned m ∧ m.Unpackable)
      (unpackBytes size) (fun _ m => HeapWithin area limit owned m ∧ m.Unpackable) := by
  rintro m ⟨within, bound, small⟩
  rw [unpackBytes_eq]
  by_cases fits : m.locals.uctx.bytesUnpacked + size ≤ m.locals.uctx.size
  · rw [if_pos fits]
    exact ⟨within.of_eq rfl rfl, fits, small⟩
  · rw [if_neg fits]
    trivial

/-- Unpacking a blob from memory. -/
theorem unpackStoredData12_within {data dataSize : UInt32} (small : dataSize.toNat ≤ 1024) :
    Prog.Runs True (HeapWithin area limit owned)
      (unpackStoredData12 data dataSize : Boot σ TpmStoredData12)
      (fun value m => value.Small ∧ HeapWithin area (limit + 260) owned m) := by
  have start : Prog.Runs True (HeapWithin area limit owned)
      (unpackInit (.mem data) dataSize : Boot σ Unit)
      (fun _ m => HeapWithin area limit owned m ∧ m.Unpackable) := by
    refine Prog.Runs.modify fun m within => ⟨within.of_eq rfl rfl, ?_, ?_⟩
    · exact UInt32.le_iff_toNat_le.mpr (Nat.zero_le _)
    · exact UInt32.le_iff_toNat_le.mpr small
  refine start.bind fun _ => ?_
  have blob : Prog.Runs True (fun m : Machine σ => HeapWithin area limit owned m ∧ m.Unpackable)
      (unmarshalStoredData12 .given .null) (fun value m => value.Small ∧
        HeapWithin area (limit + 260) owned m ∧ m.Unpackable) := by
    refine @unmarshalStoredData12_small σ limit
      (fun limit m => HeapWithin area limit owned m ∧ m.Unpackable) .null ?_ ?_ ?_
    · intro limit
      rw [unmarshalUINT16_given]
      exact (unpackBytes_unpackable 2).bind fun _ => Prog.Runs.ret fun _ holds => holds
    · intro limit
      rw [unmarshalUINT32_given]
      exact (unpackBytes_unpackable 4).bind fun _ => Prog.Runs.ret fun _ holds => holds
    · exact fun limit size => unmarshalPtr_within size .null
  exact blob.mono (fun _ holds => holds) fun _ _ holds => ⟨holds.1, holds.2.1⟩

end Programs

section Responses

variable {σ α : Type} {area : HeapArea} {limit : Nat} {owned : List Allocation}

/-- Between a request and its response nothing is packed into the memory. -/
structure Exchanging (area : HeapArea) (limit : Nat) (owned : List Allocation)
    (m : Machine σ) : Prop where
  within : HeapWithin area limit owned m
  packing : m.locals.pctx.packBuffer = .tisIn

/-- A response is being unpacked. -/
structure Receives (area : HeapArea) (limit : Nat) (owned : List Allocation)
    (m : Machine σ) : Prop extends Exchanging area limit owned m where
  reading : Reading area m

theorem exchanging_of {program : Boot σ α}
    (respects : Respects False True (fun _ => True) program) :
    Prog.Runs True (Exchanging area limit owned) program
      (fun _ => Exchanging area limit owned) := by
  refine Prog.Ends.mono (Prog.Steps.ends respects ?_) (fun _ holds => holds)
    (fun _ _ holds => holds) (fun _ _ => trivial)
  intro m reached exchanging evolves
  obtain ⟨mem, heap, packing⟩ := evolves.memory trivial exchanging.packing
  exact ⟨exchanging.within.of_eq mem heap, packing⟩

/-- A parser that keeps the memory goes on with the unpacking. -/
theorem receives_of {program : Boot σ α}
    (respects : Respects False True (fun _ => True) program) (parses : Parses area program) :
    Prog.Runs True (Receives area limit owned) program (fun _ => Receives area limit owned) := by
  intro m receives
  have exchanges := exchanging_of respects m receives.toExchanging
  cases run : program m with
  | halt reason reached => trivial
  | ok value reached =>
      rw [run] at exchanges
      exact ⟨exchanges, (parses m value reached receives.reading run).1⟩

theorem unmarshalHeader_receives (sctx : HashPtr) :
    Prog.Runs True (Exchanging area limit owned) (unmarshalHeader sctx : Boot σ ResponseHeader)
      (fun _ => Receives area limit owned) := by
  intro m exchanging
  have exchanges := exchanging_of (unmarshalHeader_respects sctx) m exchanging
  have reads := unmarshalHeader_readingOut sctx m ⟨exchanging.within.soundHeap, rfl⟩
  cases run : unmarshalHeader sctx m with
  | halt reason reached => trivial
  | ok header reached =>
      rw [run] at exchanges reads
      exact ⟨exchanges, reads.2.1⟩

theorem unmarshalPtr_receives (size : UInt32) (sctx : HashPtr) :
    Prog.Runs True (Receives area limit owned) (unmarshalPtr size .given sctx : Boot σ UInt32)
      (fun _ m => size.toNat ≤ 1024 ∧ Receives area (limit + 130) owned m) := by
  intro m receives
  have unpackable : m.Unpackable := by
    rw [Machine.Unpackable, receives.reading.size]
    exact ⟨UInt32.le_iff_toNat_le.mpr receives.reading.bound, UInt32.le_refl _⟩
  have copied := unmarshalPtr_within size sctx m ⟨receives.within, unpackable⟩
  cases run : unmarshalPtr size .given sctx m with
  | halt reason reached => trivial
  | ok ptr reached =>
      rw [run] at copied
      obtain ⟨small, within, -⟩ := copied
      obtain ⟨_, _, _, -, -, -, -, same⟩ := unmarshalPtr_copies run
      have packing : reached.locals.pctx = m.locals.pctx := congrArg (·.2.2.2) same
      refine ⟨small, ⟨within, packing ▸ receives.packing⟩, ?_⟩
      exact (unmarshalPtr_parses size sctx m ptr reached receives.reading run).1

theorem unmarshalStoredData12_receives (sctx : HashPtr) :
    Prog.Runs True (Receives area limit owned)
      (unmarshalStoredData12 .given sctx : Boot σ TpmStoredData12)
      (fun data m => data.Small ∧ Receives area (limit + 260) owned m) :=
  @unmarshalStoredData12_small σ limit (fun limit => Receives area limit owned) sctx
    (fun _ => receives_of (unmarshalUINT16_respects _ _ _) (unmarshalUINT16_parses _ _ _))
    (fun _ => receives_of (unmarshalUINT32_respects _ _ _) (unmarshalUINT32_parses _ _ _))
    (fun _ size => unmarshalPtr_receives size sctx)

theorem unmarshalHeapData_receives (ordinalIn : UInt32) :
    Prog.Runs True (Receives area limit owned)
      (unmarshalHeapData ordinalIn : Boot σ HeapData)
      (fun value m => value.dataSize.toNat ≤ 1024 ∧ Receives area (limit + 130) owned m) := by
  have word (val : UInt32) (ctx : ContextPtr) :
      Prog.Runs True (Receives area limit owned)
        (unmarshalUINT32 val ctx .plain : Boot σ UInt32) (fun _ => Receives area limit owned) :=
    receives_of (unmarshalUINT32_respects _ _ _) (unmarshalUINT32_parses _ _ _)
  refine (word ordinalIn .null).bind fun _ => (word 0 .given).bind fun dataSize => ?_
  refine (unmarshalPtr_receives dataSize .plain).bind fun data => Prog.Runs.assume fun small => ?_
  refine (receives_of sha1FinishLocal_respects sha1FinishLocal_parses).bind fun _ => ?_
  exact Prog.Runs.ret fun _ receives => ⟨small, receives⟩

/-- The machine with a pack context as a request sets it up. -/
def Machine.repacked (m : Machine σ) : Machine σ :=
  { m with locals := { m.locals with pctx := ⟨.tisIn, 0, 1024⟩ } }

/-- A program that sets up the pack context before it packs. -/
theorem exchanging_of_restarts {program : Boot σ α}
    (restarts : ∀ m, program m = program m.repacked)
    (respects : Respects False True (fun _ => True) program) :
    Prog.Runs True (HeapWithin area limit owned) program
      (fun _ => Exchanging area limit owned) := by
  intro m within
  rw [restarts m]
  exact exchanging_of respects m.repacked ⟨within.of_eq rfl rfl, rfl⟩

variable {device : TisDevice σ}

theorem plainRequest_exchanging {ordinalIn paramSizeIn : UInt32}
    {uses : List (UInt32 × Block 20)} {params : Boot σ Unit}
    (respects : Respects False True (fun _ => True) params) :
    Prog.Runs True (HeapWithin area limit owned)
      (plainRequest device ordinalIn paramSizeIn uses params)
      (fun _ => Exchanging area limit owned) := by
  refine exchanging_of_restarts (fun _ => rfl) ?_
  refine (marshalHeader_respects _ _).bind fun _ => (marshalBytes_respects _ _ _).bind fun _ => ?_
  exact respects.bind fun _ => transmit_respects bodyEvents_true _ _ _

theorem nvReadRequest_exchanging (nvIndexIn offsetIn dataSizeIn : UInt32) (ownerAuth : Block 20)
    (s : UInt32) :
    Prog.Runs True (HeapWithin area limit owned)
      (nvReadRequest device nvIndexIn offsetIn dataSizeIn ownerAuth s)
      (fun _ => Exchanging area limit owned) :=
  exchanging_of_restarts (fun _ => rfl) (nvReadRequest_respects bodyEvents_true _ _ _ _ _)

theorem sealRequest_exchanging (keyHandleIn : UInt32) (encAuthIn : Block 20)
    (pcrInfoIn : TpmPcrInfoLong) (inDataIn inDataSizeIn s : UInt32) (sharedSecret : Block 20) :
    Prog.Runs True (HeapWithin area limit owned)
      (sealRequest device keyHandleIn encAuthIn pcrInfoIn inDataIn inDataSizeIn s sharedSecret)
      (fun _ => Exchanging area limit owned) :=
  exchanging_of_restarts (fun _ => rfl) (sealRequest_respects bodyEvents_true _ _ _ _ _ _ _)

theorem unsealRequest_exchanging (inDataIn : TpmStoredData12) (parentHandleIn : UInt32)
    (parentAuth : Block 20) (parentS : UInt32) (dataAuth : Block 20) (dataS : UInt32) :
    Prog.Runs True (HeapWithin area limit owned)
      (unsealRequest device inDataIn parentHandleIn parentAuth parentS dataAuth dataS)
      (fun _ => Exchanging area limit owned) :=
  exchanging_of_restarts (fun _ => rfl) (unsealRequest_respects bodyEvents_true _ _ _ _ _ _)

end Responses

section Commands

variable {σ α : Type} {device : TisDevice σ} {area : HeapArea} {limit more : Nat}
  {owned : List Allocation} (onNull : Boot σ UInt32)

theorem allocOr_receives {size : UInt32} (positive : 0 < size)
    (room : limit + size.toNat / 8 + 2 ≤ area.units) :
    Prog.Agrees (Receives area limit owned) (allocOr onNull size) (allocHeap size)
      (fun _ => Receives area (limit + size.toNat / 8 + 2) owned) := by
  obtain ⟨runs, same⟩ := @allocOr_agrees σ area limit owned onNull size positive room
  constructor
  · intro m receives
    have within := runs m receives.within
    cases run : allocHeap size m with
    | halt reason reached => trivial
    | ok ptr reached =>
        rw [run] at within
        have packing : reached.locals = m.locals := by
          obtain ⟨mem, -, rfl⟩ := allocHeap_inv run
          rfl
        have kept := within.mono (Nat.le_refl _) (List.subset_cons_self _ _)
        refine ⟨⟨kept, packing ▸ receives.packing⟩, ?_⟩
        exact (allocHeap_parses size m ptr reached receives.reading run).1
  · exact fun m receives => same m receives.within

theorem allocSessionWith_agrees (room : limit + 8 ≤ area.units) :
    Prog.Agrees (Receives area limit owned) (allocSessionWith (allocOr onNull))
      (allocSessionWith allocHeap) (fun _ => Receives area (limit + 8) owned) := by
  refine (allocOr_receives onNull (by decide) room).bind fun ptr => Prog.Agrees.refl ?_
  refine Prog.Runs.bind (Prog.Runs.modify ?_) fun _ => Prog.Runs.ret fun _ receives => receives
  rintro m ⟨⟨within, packing⟩, ⟨heap, buffer, size, bound⟩⟩
  exact ⟨⟨within.of_eq rfl rfl, packing⟩, ⟨heap, buffer, size, bound⟩⟩

theorem allocOsapWith_agrees (room : limit + 7 ≤ area.units) :
    Prog.Agrees (Receives area limit owned) (allocOsapWith (allocOr onNull))
      (allocOsapWith allocHeap) (fun _ => Receives area (limit + 7) owned) := by
  refine (allocOr_receives onNull (by decide) room).bind fun ptr => Prog.Agrees.refl ?_
  refine Prog.Runs.bind (Prog.Runs.modify ?_) fun _ => Prog.Runs.ret fun _ receives => receives
  rintro m ⟨⟨within, packing⟩, ⟨heap, buffer, size, bound⟩⟩
  exact ⟨⟨within.of_eq rfl rfl, packing⟩, ⟨heap, buffer, size, bound⟩⟩

theorem unmarshalOIAPWith_agrees (session : SessionSlot) (room : limit + 8 ≤ area.units) :
    Prog.Agrees (Receives area limit owned) (unmarshalOIAPWith (allocOr onNull) session)
      (unmarshalOIAPWith allocHeap session) (fun _ => Receives area (limit + 8) owned) := by
  refine (allocSessionWith_agrees onNull room).bind fun s => Prog.Agrees.refl ?_
  refine receives_of ?_ ?_
  · refine (setSlot_respects _ _).bind fun _ => (emit_respects trivial).bind fun _ => ?_
    refine assert_respects.bind fun _ => (unmarshalUINT32_respects _ _ _).bind fun _ => ?_
    refine (unmarshalObject_respects _ _ _).bind fun _ => ?_
    exact (updateSession_respects _ _).bind fun _ => Respects.ret _
  · refine (setSlot_parses _ _).bind fun _ => (emit_parses _).bind fun _ => ?_
    refine assert_parses.bind fun _ => (unmarshalUINT32_parses _ _ _).bind fun _ => ?_
    refine (unmarshalObject_parses _ _ _).bind fun _ => ?_
    exact (updateSession_parses _ _).bind fun _ => Parses.ret _

theorem unmarshalOSAPWith_agrees (nonceOddOSAP : Block 20) (session : SessionSlot)
    (room : limit + 15 ≤ area.units) :
    Prog.Agrees (Receives area limit owned)
      (unmarshalOSAPWith (allocOr onNull) nonceOddOSAP session)
      (unmarshalOSAPWith allocHeap nonceOddOSAP session)
      (fun _ => Receives area (limit + 15) owned) := by
  refine (allocSessionWith_agrees onNull (by omega)).bind fun s => ?_
  refine Prog.Agrees.bind_refl (receives_of (setSlot_respects _ _) (setSlot_parses _ _)) fun _ => ?_
  refine Prog.Agrees.bind_refl (receives_of (emit_respects trivial) (emit_parses _)) fun _ => ?_
  refine (allocOsapWith_agrees onNull (by omega)).bind fun osap => Prog.Agrees.refl ?_
  refine receives_of ?_ ?_
  · refine (updateSession_respects _ _).bind fun _ => (unmarshalUINT32_respects _ _ _).bind
      fun _ => (unmarshalObject_respects _ _ _).bind fun _ => ?_
    refine (updateSession_respects _ _).bind fun _ => Respects.ite ?_ ?_
    · exact (unmarshalArray_respects _ _ _ _).bind fun _ => Respects.ret _
    · exact (unmarshalObject_respects _ _ _).bind fun _ => (updateOsap_respects _ _).bind
        fun _ => Respects.ret _
  · refine (updateSession_parses _ _).bind fun _ => (unmarshalUINT32_parses _ _ _).bind
      fun _ => (unmarshalObject_parses _ _ _).bind fun _ => ?_
    refine (updateSession_parses _ _).bind fun _ => Parses.ite ?_ ?_
    · exact (unmarshalArray_parses _ (by decide) _ _).bind fun _ => Parses.ret _
    · exact (unmarshalObject_parses _ _ _).bind fun _ => (updateOsap_parses _ _).bind
        fun _ => Parses.ret _

variable {onNull}

theorem plainResponse_agrees {initial : α} {params other : Boot σ (Result α)}
    (larger : limit ≤ more)
    (agrees : Prog.Agrees (Receives area limit owned) params other
      (fun _ => Receives area more owned)) :
    Prog.Agrees (Exchanging area limit owned) (plainResponse initial params)
      (plainResponse initial other) (fun _ => HeapWithin area more owned) := by
  refine Prog.Agrees.bind_refl (unmarshalHeader_receives .null) fun header => ?_
  refine Prog.Agrees.unless (fun _ receives => receives.within.grow larger) fun _ => ?_
  refine agrees.bind fun ret => ?_
  refine Prog.Agrees.unless (fun _ receives => receives.within) fun _ => ?_
  refine Prog.Agrees.bind_refl (receives_of unpackFinish_respects unpackFinish_parses) fun _ => ?_
  refine Prog.Agrees.unless (fun _ receives => receives.within) fun _ => ?_
  refine Prog.Agrees.unless (fun _ receives => receives.within) fun _ => ?_
  exact Prog.Agrees.refl (Prog.Runs.ret fun _ receives => receives.within)

theorem plainCommand_agrees {ordinalIn paramSizeIn : UInt32} {uses : List (UInt32 × Block 20)}
    {request : Boot σ Unit} {initial : α} {response other : Boot σ (Result α)}
    (larger : limit ≤ more) (respects : Respects False True (fun _ => True) request)
    (agrees : Prog.Agrees (Receives area limit owned) response other
      (fun _ => Receives area more owned)) :
    Prog.Agrees (HeapWithin area limit owned)
      (plainCommand device ordinalIn paramSizeIn uses request initial response)
      (plainCommand device ordinalIn paramSizeIn uses request initial other)
      (fun _ => HeapWithin area more owned) := by
  refine Prog.Agrees.bind_refl (plainRequest_exchanging respects) fun ret => ?_
  refine Prog.Agrees.unless (fun _ exchanging => exchanging.within.grow larger) fun _ => ?_
  exact plainResponse_agrees larger agrees

/-- The log entries around a command do not touch the heap. -/
theorem command_agrees {ordinal : UInt32} {body other : Boot σ (Result α)}
    {post : Result α → Machine σ → Prop}
    (stable : ∀ ret m log, post ret m → post ret { m with log := log })
    (agrees : Prog.Agrees (HeapWithin area limit owned) body other post) :
    Prog.Agrees (HeapWithin area limit owned) (command ordinal body) (command ordinal other)
      post := by
  have issued : Prog.Preserves (fun m => (m.mem, m.heap))
      (emit (.issued ordinal) : Boot σ Unit) := fun _ => rfl
  refine Prog.Agrees.bind_refl (within_of_preserves issued) fun _ => ?_
  refine agrees.bind fun ret => Prog.Agrees.refl ?_
  have finished : Prog.Runs True (post ret)
      (emit (.finished ordinal ret.exception) : Boot σ Unit) (fun _ => post ret) :=
    Prog.Runs.modify fun m holds => stable ret m _ holds
  exact finished.bind fun _ => Prog.Runs.ret fun _ holds => holds

theorem tpmOIAPWith_agrees (session : SessionSlot) (room : limit + 8 ≤ area.units) :
    Prog.Agrees (HeapWithin area limit owned) (tpmOIAPWith device (allocOr onNull) session)
      (tpmOIAPWith device allocHeap session) (fun _ => HeapWithin area (limit + 8) owned) := by
  refine command_agrees (fun _ _ _ within => within.of_eq rfl rfl) ?_
  exact plainCommand_agrees (by omega) (Respects.ret _)
    (unmarshalOIAPWith_agrees onNull session room)

theorem tpmOSAPWith_agrees (entityTypeIn : UInt16) (entityValueIn : UInt32)
    (nonceOddOSAP : Block 20) (session : SessionSlot) (room : limit + 15 ≤ area.units) :
    Prog.Agrees (HeapWithin area limit owned)
      (tpmOSAPWith device (allocOr onNull) entityTypeIn entityValueIn nonceOddOSAP session)
      (tpmOSAPWith device allocHeap entityTypeIn entityValueIn nonceOddOSAP session)
      (fun _ => HeapWithin area (limit + 15) owned) := by
  refine command_agrees (fun _ _ _ within => within.of_eq rfl rfl) ?_
  refine (plainCommand_agrees (by omega) ?_ (unmarshalOSAPWith_agrees onNull nonceOddOSAP
    session room)).bind fun ret => ?_
  · exact (marshalBytes_respects _ _ _).bind fun _ => (marshalBytes_respects _ _ _).bind
      fun _ => marshalBytes_respects _ _ _
  · refine Prog.Agrees.unless (fun _ within => within) fun _ => Prog.Agrees.refl ?_
    refine (within_of_preserves ?_).bind fun _ => Prog.Runs.ret fun _ within => within
    exact Prog.Steps.ite (fun _ => rfl) fun _ => rfl

/-- The tails of the authorised responses. -/
theorem unmarshalAuth_receives (secret : Block 20) (s : UInt32) :
    Prog.Runs True (Receives area limit owned) (unmarshalAuth secret s : Boot σ Unit)
      (fun _ => Receives area limit owned) :=
  receives_of (unmarshalAuth_respects _ _) (unmarshalAuth_parses _ _)

theorem unmarshalResAuth_receives :
    Prog.Runs True (Receives area limit owned) (unmarshalResAuth : Boot σ (Block 20 × Block 20))
      (fun _ => Receives area limit owned) :=
  receives_of unmarshalResAuth_respects unmarshalResAuth_parses

theorem closeSession_receives (session : SessionSlot) (s : UInt32) :
    Prog.Runs True (Receives area limit owned) (closeSession session s : Boot σ Unit)
      (fun _ => Receives area limit owned) :=
  receives_of (closeSession_respects _ _) (closeSession_parses _ _)

theorem unpackFinish_receives :
    Prog.Runs True (Receives area limit owned) (unpackFinish : Boot σ UInt32)
      (fun _ => Receives area limit owned) :=
  receives_of unpackFinish_respects unpackFinish_parses

/-- A test that ends a response early. -/
theorem receives_unless {condition : Prop} [Decidable condition] {value : Result α}
    {rest : Boot σ (Result α)} {fact : Result α → Prop} (early : fact value)
    (second : Prog.Runs True (Receives area limit owned) rest
      (fun ret m => fact ret ∧ HeapWithin area limit owned m)) :
    Prog.Runs True (Receives area limit owned) (if condition then pure value else rest)
      (fun ret m => fact ret ∧ HeapWithin area limit owned m) :=
  Prog.Runs.ite (fun _ => Prog.Runs.ret fun _ receives => ⟨early, receives.within⟩)
    fun _ => second

theorem sha1InitLocal_exchanging :
    Prog.Runs True (Exchanging area limit owned) (sha1InitLocal : Boot σ Unit)
      (fun _ => Exchanging area limit owned) :=
  exchanging_of sha1InitLocal_respects

theorem sealResponse_within (session : SessionSlot) (s : UInt32) (sharedSecret : Block 20) :
    Prog.Runs True (Exchanging area limit owned)
      (sealResponse session s sharedSecret : Boot σ (Result TpmStoredData12))
      (fun ret m => ret.value.Small ∧ HeapWithin area (limit + 260) owned m) := by
  refine sha1InitLocal_exchanging.bind fun _ => (unmarshalHeader_receives _).bind fun header => ?_
  refine Prog.Runs.ite (fun _ => Prog.Runs.ret fun _ receives =>
    ⟨⟨Nat.zero_le _, Nat.zero_le _⟩, receives.within.grow (by omega)⟩) fun _ => ?_
  refine (receives_of (unmarshalUINT32_respects _ _ _) (unmarshalUINT32_parses _ _ _)).bind
    fun _ => (unmarshalStoredData12_receives .plain).bind fun value => ?_
  refine Prog.Runs.assume fun small => ?_
  refine (receives_of sha1FinishLocal_respects sha1FinishLocal_parses).bind fun _ => ?_
  refine (unmarshalAuth_receives _ _).bind fun _ => unmarshalResAuth_receives.bind fun auth => ?_
  refine unpackFinish_receives.bind fun _ => receives_unless small ?_
  refine receives_unless small (receives_unless small ?_)
  refine (receives_of (loadSession_respects _) (loadSession_parses _)).bind fun _ => ?_
  refine receives_unless small ?_
  refine (receives_of (setSlot_respects _ _) (setSlot_parses _ _)).bind fun _ => ?_
  exact Prog.Runs.ret fun _ receives => ⟨small, receives.within⟩

theorem tpmSeal_within (keyHandleIn : UInt32) (encAuthIn : Block 20)
    (pcrInfoIn : TpmPcrInfoLong) (inDataIn inDataSizeIn : UInt32) (session : SessionSlot)
    (sharedSecret : Block 20) :
    Prog.Runs True (HeapWithin area limit owned)
      (tpmSeal device keyHandleIn encAuthIn pcrInfoIn inDataIn inDataSizeIn session
        sharedSecret)
      (fun ret m => ret.value.Small ∧ HeapWithin area (limit + 260) owned m) := by
  refine (command_agrees (fun _ _ _ holds => ⟨holds.1, holds.2.of_eq rfl rfl⟩)
    (Prog.Agrees.refl ?_)).1
  refine (Prog.Runs.get).bind fun _ => ?_
  refine (sealRequest_exchanging _ _ _ _ _ _ _).bind fun ret => ?_
  refine Prog.Runs.ite (fun _ => Prog.Runs.ret fun _ exchanging =>
    ⟨⟨Nat.zero_le _, Nat.zero_le _⟩, exchanging.within.grow (by omega)⟩) fun _ => ?_
  exact sealResponse_within _ _ _

theorem nvReadResponse_within (ownerAuth : Block 20) :
    Prog.Runs True (Exchanging area limit owned)
      (nvReadResponse ownerAuth none 0 : Boot σ (Result HeapData))
      (fun ret m => ret.value.dataSize.toNat ≤ 1024 ∧
        HeapWithin area (limit + 130) owned m) := by
  refine sha1InitLocal_exchanging.bind fun _ => (unmarshalHeader_receives _).bind fun header => ?_
  refine Prog.Runs.ite (fun _ => Prog.Runs.ret fun _ receives =>
    ⟨Nat.zero_le _, receives.within.grow (by omega)⟩) fun _ => ?_
  refine (unmarshalHeapData_receives _).bind fun value => Prog.Runs.assume fun small => ?_
  refine Prog.Runs.ite (fun _ => ?_) fun authorised => (authorised rfl).elim
  refine unpackFinish_receives.bind fun _ => receives_unless small (receives_unless small ?_)
  exact Prog.Runs.ret fun _ receives => ⟨small, receives.within⟩

/-- An NV area is read without a session. -/
theorem tpmNvReadValue_within (nvIndexIn offsetIn dataSizeIn : UInt32) :
    Prog.Runs True (HeapWithin area limit owned)
      (tpmNvReadValue device nvIndexIn offsetIn dataSizeIn none none)
      (fun ret m => ret.value.dataSize.toNat ≤ 1024 ∧
        HeapWithin area (limit + 130) owned m) := by
  refine (command_agrees (fun _ _ _ holds => ⟨holds.1, holds.2.of_eq rfl rfl⟩)
    (Prog.Agrees.refl ?_)).1
  have unauthorised : Prog.Runs True (HeapWithin area limit owned)
      (optionalSession none : Boot σ UInt32) (fun s m => s = 0 ∧ HeapWithin area limit owned m) :=
    Prog.Runs.ret fun _ within => ⟨rfl, within⟩
  refine unauthorised.bind fun s => Prog.Runs.assume fun zero => ?_
  subst zero
  refine Prog.Runs.bind (within_of_preserves (Prog.Preserves.ite (fun _ => rfl) fun _ => rfl))
    fun _ => ?_
  refine (nvReadRequest_exchanging _ _ _ _ _).bind fun ret => ?_
  refine Prog.Runs.ite (fun _ => Prog.Runs.ret fun _ exchanging =>
    ⟨Nat.zero_le _, exchanging.within.grow (by omega)⟩) fun _ => ?_
  exact nvReadResponse_within _

theorem getSlot_within (slot : SessionSlot) :
    Prog.Runs True (HeapWithin area limit owned) (getSlot slot : Boot σ UInt32)
      (fun _ => HeapWithin area limit owned) :=
  within_of_preserves fun _ => rfl

theorem unsealResponse_within (parentAuth : Block 20) (parentSession : SessionSlot)
    (parentS : UInt32) (dataAuth : Block 20) (dataSession : SessionSlot) (dataS : UInt32) :
    Prog.Runs True (Exchanging area limit owned)
      (unsealResponse parentAuth parentSession parentS dataAuth dataSession dataS :
        Boot σ (Result HeapData))
      (fun ret m => ret.value.dataSize.toNat ≤ 1024 ∧
        HeapWithin area (limit + 130) owned m) := by
  refine sha1InitLocal_exchanging.bind fun _ => (unmarshalHeader_receives _).bind fun header => ?_
  refine Prog.Runs.ite (fun _ => Prog.Runs.ret fun _ receives =>
    ⟨Nat.zero_le _, receives.within.grow (by omega)⟩) fun _ => ?_
  refine (unmarshalHeapData_receives _).bind fun value => Prog.Runs.assume fun small => ?_
  refine (unmarshalAuth_receives _ _).bind fun _ => unmarshalResAuth_receives.bind fun auth => ?_
  refine (closeSession_receives _ _).bind fun _ => receives_unless small ?_
  refine (unmarshalAuth_receives _ _).bind fun _ => unmarshalResAuth_receives.bind fun auth => ?_
  refine unpackFinish_receives.bind fun _ => receives_unless small ?_
  refine receives_unless small (receives_unless small ?_)
  refine (closeSession_receives _ _).bind fun _ => ?_
  exact Prog.Runs.ret fun _ receives => ⟨small, receives.within⟩

theorem tpmUnseal_within (inDataIn : TpmStoredData12) (parentHandleIn : UInt32)
    (parentAuth : Block 20) (parentSession : SessionSlot) (dataAuth : Block 20)
    (dataSession : SessionSlot) :
    Prog.Runs True (HeapWithin area limit owned)
      (tpmUnseal device inDataIn parentHandleIn parentAuth parentSession dataAuth dataSession)
      (fun _ => HeapWithin area (limit + 130) owned) := by
  refine (command_agrees (fun _ _ _ within => within.of_eq rfl rfl) (Prog.Agrees.refl ?_)).1
  refine (getSlot_within parentSession).bind fun parentS =>
    (getSlot_within dataSession).bind fun dataS => ?_
  refine (unsealRequest_exchanging _ _ _ _ _ _).bind fun ret => ?_
  refine Prog.Runs.ite (fun _ => Prog.Runs.ret fun _ exchanging =>
    exchanging.within.grow (by omega)) fun _ => ?_
  exact (unsealResponse_within _ _ _ _ _ _).mono (fun _ holds => holds) fun _ _ holds => holds.2

end Commands

section Flow

variable {σ α : Type} {device : TisDevice σ} {area : HeapArea} {limit : Nat}
  {owned : List Allocation} {onNull : Boot σ UInt32}

theorem outString_within (value : List UInt8) :
    Prog.Runs True (HeapWithin area limit owned) (outString value : Boot σ Unit)
      (fun _ => HeapWithin area limit owned) :=
  within_of_preserves fun _ => rfl

theorem getAuthdata_within :
    Prog.Runs True (HeapWithin area limit owned) (getAuthdata : Boot σ (Result (Block 20)))
      (fun _ => HeapWithin area limit owned) := by
  have line : Prog.Runs True (HeapWithin area limit owned)
      (getString (fun _ => 0) authdataStrSize false : Boot σ (Mem × Nat))
      (fun _ => HeapWithin area limit owned) := by
    intro m within
    refine Prog.Runs.mono (getString_lineRead false _) (fun _ holds => holds) ?_ m rfl
    intro _ reached known
    obtain ⟨mem, heap⟩ := Prod.mk.inj known.1
    exact within.of_eq mem heap
  refine line.bind fun read => Prog.Runs.ite (fun _ => within_of_preserves fun _ => rfl)
    fun _ => Prog.Runs.ite (fun _ => within_of_preserves ?_)
      fun _ => Prog.Runs.ret fun _ within => within
  refine Prog.Preserves.bind (fun _ => rfl) fun _ => Prog.Preserves.bind (fun _ => rfl) fun _ => ?_
  refine Prog.Preserves.ite (fun _ => rfl) (Prog.Preserves.bind (fun _ => rfl) fun _ => ?_)
  exact Prog.Preserves.bind (fun _ => rfl) fun _ => fun _ => rfl

theorem getNonce_within :
    Prog.Runs True (HeapWithin area limit owned) (getNonce device)
      (fun _ => HeapWithin area limit owned) := by
  refine within_of_preserves (Prog.Preserves.bind (Prog.Preserves.bind ?_ fun _ =>
    Prog.Preserves.bind (fun _ => rfl) fun _ => fun _ => rfl) fun _ =>
      Prog.Preserves.ite (fun _ => rfl) fun _ => rfl)
  refine Prog.Preserves.bind (fun _ => rfl) fun _ => Prog.Preserves.bind
    (plainCommand_keeps_memory (marshalBytes_respects _ _ _) ?_) fun _ =>
      Prog.Preserves.bind (fun _ => rfl) fun _ => fun _ => rfl
  refine (unmarshalUINT32_respects _ _ _).bind fun _ => Respects.ite (Respects.ret _) ?_
  exact (unmarshalArray_respects _ _ _ _).bind fun _ => Respects.ret _

theorem tpmPCRRead_within (pcrIndexIn : UInt32) :
    Prog.Runs True (HeapWithin area limit owned) (tpmPCRRead device pcrIndexIn)
      (fun _ => HeapWithin area limit owned) := by
  refine within_of_preserves (Prog.Preserves.bind (fun _ => rfl) fun _ => Prog.Preserves.bind
    (plainCommand_keeps_memory (marshalBytes_respects _ _ _) ?_) fun _ =>
      Prog.Preserves.bind (fun _ => rfl) fun _ => fun _ => rfl)
  exact (unmarshalObject_respects _ _ _).bind fun _ => Respects.ret _

theorem updateSlot_within (slot : SessionSlot) (update : TpmSession → TpmSession) :
    Prog.Runs True (HeapWithin area limit owned)
      (getSlot slot >>= fun s => updateSession s update : Boot σ Unit)
      (fun _ => HeapWithin area limit owned) :=
  within_of_preserves (Prog.Preserves.bind (fun _ => rfl) fun _ =>
    Prog.Preserves.ite (fun _ => rfl) fun _ => rfl)

theorem loadSession_within (s : UInt32) :
    Prog.Runs True (HeapWithin area limit owned) (loadSession s : Boot σ TpmSession)
      (fun _ => HeapWithin area limit owned) :=
  within_of_preserves (Prog.Preserves.ite (fun _ => rfl) fun _ => rfl)

theorem sessionSecret_within (srkAuth : Block 20) :
    Prog.Runs True (HeapWithin area limit owned) (sessionSecret srkAuth : Boot σ (Block 20))
      (fun _ => HeapWithin area limit owned) := by
  refine (Prog.Runs.get).bind fun _ => (loadSession_within _).bind fun _ => ?_
  exact within_of_preserves (Prog.Preserves.bind
    (Prog.Preserves.ite (fun _ => rfl) fun _ => rfl) fun _ => fun _ => rfl)

theorem getTpmCompositeHash_within (comp : TpmPcrComposite) :
    Prog.Runs True (HeapWithin area limit owned) (getTpmCompositeHash comp : Boot σ (Block 20))
      (fun _ => HeapWithin area limit owned) := by
  have hashed (bytes : List UInt8) : Prog.Preserves (fun m => (m.mem, m.heap))
      (marshalBytes bytes .null .plain : Boot σ Unit) :=
    Prog.Preserves.bind (Prog.Preserves.bind (fun _ => rfl) fun _ =>
      Prog.Preserves.ite (fun _ => rfl) fun _ => rfl) fun _ => fun _ => rfl
  have array (data size : UInt32) : Prog.Preserves (fun m => (m.mem, m.heap))
      (marshalArray data size .null .plain : Boot σ Unit) :=
    Prog.Preserves.bind (Prog.Preserves.ite (fun _ => rfl) fun _ => rfl) fun _ =>
      Prog.Preserves.bind (fun _ => rfl) fun _ => hashed _
  refine within_of_preserves (Prog.Preserves.bind (fun _ => rfl) fun _ => ?_)
  refine Prog.Preserves.bind (Prog.Preserves.bind (hashed _) fun _ => array _ _) fun _ => ?_
  refine Prog.Preserves.bind (hashed _) fun _ => Prog.Preserves.bind (array _ _) fun _ => ?_
  exact Prog.Preserves.bind (fun _ => rfl) fun _ => fun _ => rfl

theorem getPcrInfoWith_agrees (room : limit + 9 ≤ area.units) :
    Prog.Agrees (HeapWithin area limit owned) (getPcrInfoWith device (allocOr onNull))
      (getPcrInfoWith device allocHeap) (fun _ => HeapWithin area (limit + 9) owned) := by
  refine (allocOr_agrees onNull (by decide) (by
    change limit + 7 ≤ area.units
    omega)).bind fun pcrValues => ?_
  refine (allocOr_agrees onNull (by decide) room).bind fun pcrSelectBytes => Prog.Agrees.refl ?_
  have forget (m : Machine σ)
      (within : HeapWithin area (limit + 9) (⟨pcrSelectBytes, 3⟩ :: ⟨pcrValues, 2 * 20⟩ :: owned)
        m) : HeapWithin area (limit + 9) owned m :=
    within.mono (Nat.le_refl _) fun _ member => List.mem_cons_of_mem _
      (List.mem_cons_of_mem _ member)
  refine (storeBytes_within List.mem_cons_self (by decide)).bind fun _ => ?_
  refine (storeBytes_within List.mem_cons_self (by decide)).bind fun _ => ?_
  refine (storeBytes_within List.mem_cons_self (by decide)).bind fun _ => ?_
  refine (tpmPCRRead_within 18).bind fun pcr18 => ?_
  refine Prog.Runs.ite (fun _ => Prog.Runs.ret forget) fun _ => ?_
  refine (storeBytes_within (List.mem_cons_of_mem _ List.mem_cons_self) ?_).bind fun _ => ?_
  · rw [pcr18.value.length_eq]
    decide
  refine (tpmPCRRead_within 19).bind fun pcr19 => ?_
  refine Prog.Runs.ite (fun _ => Prog.Runs.ret forget) fun _ => ?_
  refine (storeBytes_within (List.mem_cons_of_mem _ List.mem_cons_self) ?_).bind fun _ => ?_
  · rw [pcr19.value.length_eq]
    decide
  exact (getTpmCompositeHash_within _).bind fun _ => Prog.Runs.ret forget

theorem sealPassphraseWith_agrees (srkAuth ppAuth : Block 20)
    (passphrase lenPassphrase : UInt32) (room : limit + 24 ≤ area.units) :
    Prog.Agrees (HeapWithin area limit owned)
      (sealPassphraseWith device (allocOr onNull) srkAuth ppAuth passphrase lenPassphrase)
      (sealPassphraseWith device allocHeap srkAuth ppAuth passphrase lenPassphrase)
      (fun ret m => ret.value.Small ∧ HeapWithin area (limit + 284) owned m) := by
  have small : emptyStoredData12.Small := ⟨Nat.zero_le _, Nat.zero_le _⟩
  refine Prog.Agrees.bind_refl getNonce_within fun nonceOddOSAP => ?_
  refine Prog.Agrees.unless (fun _ within => ⟨small, within.grow (by omega)⟩) fun _ => ?_
  refine (tpmOSAPWith_agrees _ _ _ _ (by omega)).bind fun osapRet => ?_
  refine Prog.Agrees.unless (fun _ within => ⟨small, within.grow (by omega)⟩) fun _ => ?_
  refine Prog.Agrees.bind_refl getNonce_within fun nonceOdd => ?_
  refine Prog.Agrees.unless (fun _ within => ⟨small, within.grow (by omega)⟩) fun _ => ?_
  refine Prog.Agrees.bind_refl (updateSlot_within _ _) fun _ => ?_
  refine Prog.Agrees.bind_refl (updateSlot_within _ _) fun _ => ?_
  refine Prog.Agrees.bind_refl (sessionSecret_within _) fun sharedSecret => ?_
  refine Prog.Agrees.bind_refl (getSlot_within _) fun s => ?_
  refine Prog.Agrees.bind_refl (loadSession_within _) fun session => ?_
  refine (getPcrInfoWith_agrees (by omega)).bind fun pcrInfo => ?_
  refine Prog.Agrees.unless (fun _ within => ⟨small, within.grow (by omega)⟩) fun _ => ?_
  exact Prog.Agrees.refl (tpmSeal_within _ _ _ _ _ _ _)

/-- The block for the serialised blob is the last one that `configure` asks for. -/
theorem extractStoredData12With_agrees {sealedData : TpmStoredData12} (small : sealedData.Small)
    (room : limit + 259 ≤ area.units) :
    Prog.Agrees (HeapWithin area limit owned) (extractStoredData12With (allocOr onNull) sealedData)
      (extractStoredData12With allocHeap sealedData) (fun _ _ => True) := by
  obtain ⟨sealSmall, encSmall⟩ := small
  have length := @toNat_sizeofStoredData12 sealedData (by omega)
  refine (allocOr_agrees onNull ?_ (by omega)).bind fun data => Prog.Agrees.refl Prog.Runs.any
  have zero : (0 : UInt32).toNat = 0 := rfl
  rw [UInt32.lt_iff_toNat_lt, length]
  omega

theorem writePassphraseWith_agrees (nvAuth : Block 20) {sealedData : TpmStoredData12}
    (small : sealedData.Small) (index size : UInt32) (room : limit + 267 ≤ area.units) :
    Prog.Agrees (HeapWithin area limit owned)
      (writePassphraseWith device (allocOr onNull) nvAuth sealedData index size)
      (writePassphraseWith device allocHeap nvAuth sealedData index size) (fun _ _ => True) := by
  refine (tpmOIAPWith_agrees _ (by omega)).bind fun oiapRet => ?_
  refine Prog.Agrees.unless (fun _ _ => trivial) fun _ => ?_
  refine Prog.Agrees.bind_refl getNonce_within fun nonceOdd => ?_
  refine Prog.Agrees.unless (fun _ _ => trivial) fun _ => ?_
  refine Prog.Agrees.bind_refl (updateSlot_within _ _) fun _ => ?_
  refine Prog.Agrees.bind_refl (updateSlot_within _ _) fun _ => ?_
  exact (extractStoredData12With_agrees small (by omega)).bind
    fun x => Prog.Agrees.refl Prog.Runs.any

theorem configureWith_agrees (index size : UInt32) (room : 569 ≤ area.units) :
    Prog.Agrees (HeapWithin area 0 []) (configureWith device (allocOr onNull) index size)
      (configureWith device allocHeap index size) (fun _ _ => True) := by
  refine (allocOr_agrees onNull (by decide) (by
    change 18 ≤ area.units
    omega)).bind fun passphrase => ?_
  refine Prog.Agrees.bind_refl (outString_within _) fun _ => ?_
  refine Prog.Agrees.bind_refl (getStringAt_within List.mem_cons_self (by decide) true)
    fun length => ?_
  refine Prog.Agrees.bind_refl (outString_within _) fun _ => ?_
  refine Prog.Agrees.bind_refl getAuthdata_within fun ppAuth => ?_
  refine Prog.Agrees.unless (fun _ _ => trivial) fun _ => ?_
  refine Prog.Agrees.bind_refl (outString_within _) fun _ => ?_
  refine Prog.Agrees.bind_refl getAuthdata_within fun srkAuth => ?_
  refine Prog.Agrees.unless (fun _ _ => trivial) fun _ => ?_
  refine (sealPassphraseWith_agrees _ _ _ _ (by
    change 18 + 24 ≤ area.units
    omega)).bind fun sealedData => ?_
  refine Prog.Agrees.assume fun small => Prog.Agrees.unless (fun _ _ => trivial) fun _ => ?_
  refine Prog.Agrees.bind_refl (outString_within _) fun _ => ?_
  refine Prog.Agrees.bind_refl getAuthdata_within fun nvAuth => ?_
  refine Prog.Agrees.unless (fun _ _ => trivial) fun _ => ?_
  exact writePassphraseWith_agrees _ small _ _ (by
    change 18 + 284 + 267 ≤ area.units
    omega)

theorem readPassphrase_within (index size : UInt32) :
    Prog.Runs True (HeapWithin area limit owned) (readPassphrase device index size)
      (fun _ => HeapWithin area (limit + 390) owned) := by
  refine (tpmNvReadValue_within _ _ _).bind fun val => Prog.Runs.assume fun small => ?_
  refine Prog.Runs.ite (fun _ => Prog.Runs.ret fun _ within => within.grow (by omega)) fun _ => ?_
  refine (unpackStoredData12_within small).bind fun value => ?_
  exact Prog.Runs.ret fun _ holds => holds.2

theorem unsealPassphraseWith_agrees (srkAuth ppAuth : Block 20) (sealedPp : TpmStoredData12)
    (room : limit + 23 ≤ area.units) :
    Prog.Agrees (HeapWithin area limit owned)
      (unsealPassphraseWith device (allocOr onNull) srkAuth ppAuth sealedPp)
      (unsealPassphraseWith device allocHeap srkAuth ppAuth sealedPp)
      (fun _ => HeapWithin area (limit + 153) owned) := by
  refine Prog.Agrees.bind_refl getNonce_within fun nonceOdd => ?_
  refine (tpmOSAPWith_agrees _ _ _ _ (by omega)).bind fun srkOsapRet => ?_
  refine Prog.Agrees.unless (fun _ within => within.grow (by omega)) fun _ => ?_
  refine Prog.Agrees.bind_refl (updateSlot_within _ _) fun _ => ?_
  refine Prog.Agrees.bind_refl (sessionSecret_within _) fun sharedSecret => ?_
  refine (tpmOIAPWith_agrees _ (by omega)).bind fun ppOiapRet => ?_
  refine Prog.Agrees.unless (fun _ within => within.grow (by omega)) fun _ => ?_
  refine Prog.Agrees.bind_refl getNonce_within fun nonceOdd => ?_
  refine Prog.Agrees.unless (fun _ within => within.grow (by omega)) fun _ => ?_
  refine Prog.Agrees.bind_refl (updateSlot_within _ _) fun _ => ?_
  refine Prog.Agrees.bind_refl (updateSlot_within _ _) fun _ => Prog.Agrees.refl ?_
  refine (tpmUnseal_within _ _ _ _ _ _).bind fun unsealRet => ?_
  exact Prog.Runs.ite (fun _ => Prog.Runs.ret fun _ within => within)
    fun _ => Prog.Runs.ret fun _ within => within

theorem confirmPassphraseWith_agrees (passphrase : UInt32) (room : limit + 2 ≤ area.units) :
    Prog.Agrees (HeapWithin area limit owned) (confirmPassphraseWith (allocOr onNull) passphrase)
      (confirmPassphraseWith allocHeap passphrase) (fun _ _ => True) := by
  have string : Prog.Preserves (fun m => (m.mem, m.heap))
      (loadString passphrase : Boot σ (List UInt8)) := by
    intro m
    rw [loadString, Prog.bind_get]
    cases cstring m.mem passphrase with
    | none => rfl
    | some bytes => rfl
  refine Prog.Agrees.bind_refl (outString_within _) fun _ => ?_
  refine Prog.Agrees.bind_refl (within_of_preserves string) fun shown => ?_
  refine Prog.Agrees.bind_refl (outString_within _) fun _ => ?_
  refine Prog.Agrees.bind_refl (outString_within _) fun _ => ?_
  exact (allocOr_agrees onNull (by decide) room).bind
    fun yesString => Prog.Agrees.refl Prog.Runs.any

theorem trustedBootWith_agrees (index size : UInt32) (room : 545 ≤ area.units) :
    Prog.Agrees (HeapWithin area 0 []) (trustedBootWith device (allocOr onNull) index size)
      (trustedBootWith device allocHeap index size) (fun _ _ => True) := by
  refine Prog.Agrees.bind_refl (readPassphrase_within _ _) fun sealedPp => ?_
  refine Prog.Agrees.unless (fun _ _ => trivial) fun _ => ?_
  refine Prog.Agrees.bind_refl (outString_within _) fun _ => ?_
  refine Prog.Agrees.bind_refl getAuthdata_within fun ppAuth => ?_
  refine Prog.Agrees.unless (fun _ _ => trivial) fun _ => ?_
  refine Prog.Agrees.bind_refl (outString_within _) fun _ => ?_
  refine Prog.Agrees.bind_refl getAuthdata_within fun srkAuth => ?_
  refine Prog.Agrees.unless (fun _ _ => trivial) fun _ => ?_
  refine (unsealPassphraseWith_agrees _ _ _ (by omega)).bind fun passphrase => ?_
  refine Prog.Agrees.unless (fun _ _ => trivial) fun _ => ?_
  exact (confirmPassphraseWith_agrees _ (by omega)).bind fun _ => Prog.Agrees.refl Prog.Runs.any

/-- On a fresh heap of 8192 bytes the allocations whose results are not tested return a
block in every run, so that a handler for the null pointer is never called. -/
theorem allocations_suffice (device : TisDevice σ) (onNull : Boot σ UInt32) (index size : UInt32)
    {m : Machine σ} {before : Mem} (nonNull : m.heap ≠ 0)
    (fits : m.heap.toNat + 8192 ≤ 4294967296)
    (init : initHeap m.heap 8192 before = .ok () m.mem) :
    configureWith device (allocOr onNull) index size m = configure device index size m ∧
      trustedBootWith device (allocOr onNull) index size m =
        trustedBoot device index size m := by
  let area : HeapArea := ⟨m.heap, 8192, nonNull, fits⟩
  have units : area.units = 1024 := by
    change (8192 : UInt32).toNat / 8 = 1024
    decide
  have fresh : HeapWithin area 0 [] m := HeapWithin.init (by omega) rfl init
  constructor
  · exact (configureWith_agrees index size (by omega)).2 m fresh
  · exact (trustedBootWith_agrees index size (by omega)).2 m fresh

/-- A blank machine with a fresh heap at address 8. -/
def fullHeapMachine : Machine Nat :=
  { Machine.blank 0 with mem := (initHeap 8 8192 fun _ => 0).state }

theorem allocations_suffice_fresh :
    initHeap 8 8192 (fun _ => 0) = .ok () fullHeapMachine.mem ∧
      configureWith floodingDevice (allocOr (Prog.halt .fault)) 1 512 fullHeapMachine =
        configure floodingDevice 1 512 fullHeapMachine ∧
      trustedBootWith floodingDevice (allocOr (Prog.halt .fault)) 1 512 fullHeapMachine =
        trustedBoot floodingDevice 1 512 fullHeapMachine := by
  have init : initHeap 8 8192 (fun _ => 0) = .ok () fullHeapMachine.mem := by
    rw [fullHeapMachine, initHeap, if_neg (by decide), if_neg (by decide), Prog.modify_apply]
    rfl
  exact ⟨init, allocations_suffice floodingDevice (Prog.halt .fault) 1 512 (by decide)
    (by decide) init⟩

end Flow

end Sable
