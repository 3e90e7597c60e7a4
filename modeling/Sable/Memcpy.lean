import Sable.OverlappingMoves
import Sable.SinitAcm
import Sable.StringInstructions

/-!
# The `memcpy` of `util.c`

The copy for Intel machines goes up or down and moves words where both pointers are aligned
alike.  It is a `memmove`.
-/

namespace Sable

open ByteMemory

section Model

/-- The pointers of a copy and the memory. -/
structure CopyState where
  mem : Mem
  dst : UInt32
  src : UInt32

def wsize : UInt32 := 4
def wmask : UInt32 := wsize - 1

/-- `*dst++ = *src++` -/
def CopyState.byteUp (s : CopyState) : CopyState :=
  ⟨write s.mem s.dst.toNat (read s.mem s.src.toNat 1), s.dst + 1, s.src + 1⟩

/-- `*(word *)dst = *(const word *)src; src += wsize; dst += wsize` -/
def CopyState.wordUp (s : CopyState) : CopyState :=
  ⟨write s.mem s.dst.toNat (read s.mem s.src.toNat 4), s.dst + wsize, s.src + wsize⟩

/-- `*--dst = *--src` -/
def CopyState.byteDown (s : CopyState) : CopyState :=
  ⟨write s.mem (s.dst - 1).toNat (read s.mem (s.src - 1).toNat 1), s.dst - 1, s.src - 1⟩

/-- `src -= wsize; dst -= wsize; *(word *)dst = *(const word *)src` -/
def CopyState.wordDown (s : CopyState) : CopyState :=
  ⟨write s.mem (s.dst - wsize).toNat (read s.mem (s.src - wsize).toNat 4), s.dst - wsize,
    s.src - wsize⟩

/-- The macro `TLOOP`: go through the body `t` times. -/
def tloop (body : CopyState → CopyState) : Nat → CopyState → CopyState
  | 0, s => s
  | t + 1, s => tloop body t (body s)

/-- The macro `TLOOP1`, which counts down before it looks at the counter. -/
def tloop1 (body : CopyState → CopyState) (t : UInt32) (s : CopyState) : CopyState :=
  tloop body ((t - 1).toNat + 1) s

/-- The bytes in front of the first whole word. -/
def alignUp (dst src length : UInt32) : UInt32 :=
  if (src ^^^ dst) &&& wmask ≠ 0 ∨ length < wsize then length else wsize - (src &&& wmask)

/-- Copy forward. -/
def copyForward (s : CopyState) (length : UInt32) : CopyState :=
  let t := alignUp s.dst s.src length
  let aligns := (s.src ||| s.dst) &&& wmask ≠ 0
  let s := if aligns then tloop1 CopyState.byteUp t s else s
  let length := if aligns then length - t else length
  let s := tloop CopyState.wordUp (length / wsize).toNat s
  tloop CopyState.byteUp (length &&& wmask).toNat s

/-- The bytes behind the last whole word. -/
def alignDown (dst src length : UInt32) : UInt32 :=
  if (src ^^^ dst) &&& wmask ≠ 0 ∨ length ≤ wsize then length else src &&& wmask

/-- Copy backwards, from the ends of the ranges. -/
def copyBackwards (s : CopyState) (length : UInt32) : CopyState :=
  let s := { s with src := s.src + length, dst := s.dst + length }
  let t := alignDown s.dst s.src length
  let aligns := (s.src ||| s.dst) &&& wmask ≠ 0
  let s := if aligns then tloop1 CopyState.byteDown t s else s
  let length := if aligns then length - t else length
  let s := tloop CopyState.wordDown (length / wsize).toNat s
  tloop CopyState.byteDown (length &&& wmask).toNat s

/-- The destination and the memory after the copy. -/
def memcpy (mem : Mem) (dst0 src0 length : UInt32) : UInt32 × Mem :=
  if length = 0 ∨ dst0 = src0 then (dst0, mem)
  else if dst0 < src0 then (dst0, (copyForward ⟨mem, dst0, src0⟩ length).mem)
  else (dst0, (copyBackwards ⟨mem, dst0, src0⟩ length).mem)

end Model

section Loops

variable {mem : Mem} {dst src : UInt32} {len i : Nat} {s : CopyState}
  {body : CopyState → CopyState}

/-- What every round carries on is carried through the loop. -/
theorem tloop_carries {holds : Nat → CopyState → Prop} {count : Nat}
    (round : ∀ {i s}, i + count ≤ len → holds i s → holds (i + count) (body s)) (t : Nat)
    (room : i + count * t ≤ len) (start : holds i s) :
    holds (i + count * t) (tloop body t s) := by
  induction t generalizing i s with
  | zero => exact start
  | succ t ih =>
      rw [Nat.mul_succ] at room ⊢
      have rest := ih (by omega) (round (by omega) start)
      rwa [show i + count + count * t = i + (count * t + count) by omega] at rest

theorem tloop1_eq {t : UInt32} (some : t ≠ 0) : tloop1 body t s = tloop body t.toNat s := by
  have positive : 0 < t.toNat := Nat.pos_of_ne_zero fun none => some (UInt32.toNat_inj.mp none)
  have one : (1 : UInt32).toNat = 1 := rfl
  have bound := t.toNat_lt
  rw [tloop1, UInt32.toNat_sub, one]
  congr 1
  omega

/-- The first bytes have been copied. -/
structure CopiedUp (mem : Mem) (dst src : UInt32) (i : Nat) (s : CopyState) : Prop where
  mem : s.mem = moved mem dst.toNat src.toNat 0 i
  dst : s.dst = dst + UInt32.ofNat i
  src : s.src = src + UInt32.ofNat i

/-- The bytes from the `i`-th on have been copied. -/
structure CopiedDown (mem : Mem) (dst src : UInt32) (len i : Nat) (s : CopyState) : Prop where
  mem : s.mem = moved mem dst.toNat src.toNat i len
  dst : s.dst = dst + UInt32.ofNat i
  src : s.src = src + UInt32.ofNat i

theorem toNat_add_ofNat {base : UInt32} {i : Nat} (room : base.toNat + i < 2 ^ 32) :
    (base + UInt32.ofNat i).toNat = base.toNat + i := by
  rw [UInt32.toNat_add, UInt32.toNat_ofNat_of_lt' (by simp only [UInt32.size]; omega)]
  omega

variable (dstFits : dst.toNat + len ≤ 2 ^ 32) (srcFits : src.toNat + len ≤ 2 ^ 32)
include dstFits srcFits

theorem CopiedUp.piece {count : Nat} (some : 0 < count) (down : dst.toNat ≤ src.toNat)
    (room : i + count ≤ len) (copied : CopiedUp mem dst src i s) :
    CopiedUp mem dst src (i + count)
      ⟨write s.mem s.dst.toNat (read s.mem s.src.toNat count), s.dst + UInt32.ofNat count,
        s.src + UInt32.ofNat count⟩ := by
  refine ⟨?_, ?_, ?_⟩
  · dsimp only
    rw [copied.mem, copied.dst, copied.src, toNat_add_ofNat (by omega), toNat_add_ofNat (by omega)]
    exact write_moved_up down count
  · dsimp only
    rw [copied.dst, UInt32.add_assoc, UInt32.ofNat_add]
  · dsimp only
    rw [copied.src, UInt32.add_assoc, UInt32.ofNat_add]

theorem CopiedDown.piece {count : Nat} (some : 0 < count) (up : src.toNat ≤ dst.toNat)
    (room : i + count ≤ len) (copied : CopiedDown mem dst src len (i + count) s) :
    CopiedDown mem dst src len i
      ⟨write s.mem (s.dst - UInt32.ofNat count).toNat
          (read s.mem (s.src - UInt32.ofNat count).toNat count),
        s.dst - UInt32.ofNat count, s.src - UInt32.ofNat count⟩ := by
  have back (base : UInt32) :
      base + UInt32.ofNat (i + count) - UInt32.ofNat count = base + UInt32.ofNat i := by
    rw [UInt32.ofNat_add, ← UInt32.add_assoc, UInt32.add_sub_cancel]
  refine ⟨?_, ?_, ?_⟩
  · dsimp only
    rw [copied.mem, copied.dst, copied.src, back, back, toNat_add_ofNat (by omega),
      toNat_add_ofNat (by omega)]
    exact write_moved_down up room
  · dsimp only
    rw [copied.dst, back]
  · dsimp only
    rw [copied.src, back]

end Loops

section Lengths

variable {dst src length : UInt32}

theorem toNat_and_wmask (length : UInt32) : (length &&& wmask).toNat = length.toNat % 4 := by
  rw [UInt32.toNat_and]
  exact Nat.and_two_pow_sub_one_eq_mod _ 2

theorem toNat_div_wsize (length : UInt32) : (length / wsize).toNat = length.toNat / 4 :=
  UInt32.toNat_div _ _

/-- The words and the bytes behind them make up the length. -/
theorem words_add_bytes (length : UInt32) :
    4 * (length / wsize).toNat + 1 * (length &&& wmask).toNat = length.toNat := by
  rw [toNat_and_wmask, toNat_div_wsize]
  omega

theorem alignUp_le (some : length ≠ 0) :
    alignUp dst src length ≠ 0 ∧ alignUp dst src length ≤ length := by
  have size : wsize.toNat = 4 := rfl
  rw [alignUp]
  by_cases bytes : (src ^^^ dst) &&& wmask ≠ 0 ∨ length < wsize
  · rw [if_pos bytes]
    exact ⟨some, UInt32.le_refl _⟩
  · rw [if_neg bytes]
    have large := UInt32.le_iff_toNat_le.mp (UInt32.not_lt.mp fun small => bytes (.inr small))
    have low := toNat_and_wmask src
    have value : (wsize - (src &&& wmask)).toNat = 4 - src.toNat % 4 := by
      rw [UInt32.toNat_sub_of_le _ _ (UInt32.le_iff_toNat_le.mpr (by omega)), low, size]
    refine ⟨fun zero => ?_, UInt32.le_iff_toNat_le.mpr (by omega)⟩
    rw [zero] at value
    change 0 = _ at value
    omega

theorem alignDown_le (some : length ≠ 0) (aligns : (src ||| dst) &&& wmask ≠ 0) :
    alignDown dst src length ≠ 0 ∧ alignDown dst src length ≤ length := by
  have size : wsize.toNat = 4 := rfl
  rw [alignDown]
  by_cases bytes : (src ^^^ dst) &&& wmask ≠ 0 ∨ length ≤ wsize
  · rw [if_pos bytes]
    exact ⟨some, UInt32.le_refl _⟩
  · rw [if_neg bytes]
    have same : (src ^^^ dst) &&& wmask = 0 := not_ne_iff.mp fun apart => bytes (.inl apart)
    have large := UInt32.lt_iff_toNat_lt.mp (UInt32.not_le.mp fun small => bytes (.inr small))
    refine ⟨fun zero => aligns ?_, UInt32.le_iff_toNat_le.mpr ?_⟩
    · have first := congrArg UInt32.toNat zero
      have both := congrArg UInt32.toNat same
      rw [toNat_and_wmask] at first both
      rw [UInt32.toNat_xor, Nat.xor_mod_two_pow (n := 2), first] at both
      change 0 ^^^ dst.toNat % 2 ^ 2 = 0 at both
      rw [Nat.zero_xor] at both
      apply UInt32.toNat_inj.mp
      rw [toNat_and_wmask, UInt32.toNat_or, Nat.or_mod_two_pow (n := 2), first, both]
      rfl
    · have low := toNat_and_wmask src
      omega

end Lengths

section Copies

variable {mem : Mem} {dst src length : UInt32}

theorem copyForward_mem (down : dst < src) (some : length ≠ 0)
    (dstFits : dst.toNat + length.toNat ≤ 2 ^ 32) (srcFits : src.toNat + length.toNat ≤ 2 ^ 32) :
    (copyForward ⟨mem, dst, src⟩ length).mem = moved mem dst.toNat src.toNat 0 length.toNat := by
  have order := Nat.le_of_lt (UInt32.lt_iff_toNat_lt.mp down)
  have byte {i : Nat} {s : CopyState} (room : i + 1 ≤ length.toNat)
      (copied : CopiedUp mem dst src i s) : CopiedUp mem dst src (i + 1) s.byteUp :=
    copied.piece dstFits srcFits Nat.one_pos order room
  have word {i : Nat} {s : CopyState} (room : i + 4 ≤ length.toNat)
      (copied : CopiedUp mem dst src i s) : CopiedUp mem dst src (i + 4) s.wordUp :=
    copied.piece dstFits srcFits (by decide) order room
  have start : CopiedUp mem dst src 0 ⟨mem, dst, src⟩ :=
    ⟨(moved_empty _ _ _ _).symm, (UInt32.add_zero _).symm, (UInt32.add_zero _).symm⟩
  have finish {s : CopyState} {first : UInt32} (small : first ≤ length)
      (copied : CopiedUp mem dst src first.toNat s) :
      (tloop CopyState.byteUp ((length - first) &&& wmask).toNat
        (tloop CopyState.wordUp ((length - first) / wsize).toNat s)).mem =
          moved mem dst.toNat src.toNat 0 length.toNat := by
    have rest := UInt32.toNat_sub_of_le _ _ small
    have parts := words_add_bytes (length - first)
    have whole := UInt32.le_iff_toNat_le.mp small
    have words := tloop_carries word ((length - first) / wsize).toNat (by omega) copied
    have bytes := tloop_carries byte ((length - first) &&& wmask).toNat (by omega) words
    rw [bytes.mem]
    congr 1
    omega
  obtain ⟨positive, small⟩ := @alignUp_le dst src length some
  rw [copyForward]
  dsimp only
  by_cases aligns : (src ||| dst) &&& wmask ≠ 0
  · rw [if_pos aligns, if_pos aligns, tloop1_eq positive]
    have first := tloop_carries byte (alignUp dst src length).toNat
      (by rw [Nat.zero_add, Nat.one_mul]; exact UInt32.le_iff_toNat_le.mp small) start
    rw [Nat.zero_add, Nat.one_mul] at first
    exact finish small first
  · rw [if_neg aligns, if_neg aligns]
    have whole := finish UInt32.zero_le start
    rwa [UInt32.sub_zero] at whole

theorem copyBackwards_mem (up : src ≤ dst) (some : length ≠ 0)
    (dstFits : dst.toNat + length.toNat ≤ 2 ^ 32) (srcFits : src.toNat + length.toNat ≤ 2 ^ 32) :
    (copyBackwards ⟨mem, dst, src⟩ length).mem = moved mem dst.toNat src.toNat 0 length.toNat := by
  have order := UInt32.le_iff_toNat_le.mp up
  have byte {i : Nat} {s : CopyState} (room : i + 1 ≤ length.toNat)
      (copied : CopiedDown mem dst src length.toNat (length.toNat - i) s) :
      CopiedDown mem dst src length.toNat (length.toNat - (i + 1)) s.byteDown := by
    rw [show length.toNat - i = length.toNat - (i + 1) + 1 by omega] at copied
    exact copied.piece dstFits srcFits Nat.one_pos order
      (by omega : length.toNat - (i + 1) + 1 ≤ length.toNat)
  have word {i : Nat} {s : CopyState} (room : i + 4 ≤ length.toNat)
      (copied : CopiedDown mem dst src length.toNat (length.toNat - i) s) :
      CopiedDown mem dst src length.toNat (length.toNat - (i + 4)) s.wordDown := by
    rw [show length.toNat - i = length.toNat - (i + 4) + 4 by omega] at copied
    exact copied.piece dstFits srcFits (by decide) order
      (by omega : length.toNat - (i + 4) + 4 ≤ length.toNat)
  have start : CopiedDown mem dst src length.toNat (length.toNat - 0)
      ⟨mem, dst + length, src + length⟩ := by
    rw [Nat.sub_zero]
    exact ⟨(moved_empty _ _ _ _).symm, by rw [UInt32.ofNat_toNat], by rw [UInt32.ofNat_toNat]⟩
  have finish {s : CopyState} {last : UInt32} (small : last ≤ length)
      (copied : CopiedDown mem dst src length.toNat (length.toNat - last.toNat) s) :
      (tloop CopyState.byteDown ((length - last) &&& wmask).toNat
        (tloop CopyState.wordDown ((length - last) / wsize).toNat s)).mem =
          moved mem dst.toNat src.toNat 0 length.toNat := by
    have rest := UInt32.toNat_sub_of_le _ _ small
    have parts := words_add_bytes (length - last)
    have whole := UInt32.le_iff_toNat_le.mp small
    have words := @tloop_carries length.toNat last.toNat s _
      (fun i s => CopiedDown mem dst src length.toNat (length.toNat - i) s) 4 word
      ((length - last) / wsize).toNat (by omega) copied
    have bytes := @tloop_carries length.toNat _ _ _
      (fun i s => CopiedDown mem dst src length.toNat (length.toNat - i) s) 1 byte
      ((length - last) &&& wmask).toNat (by omega) words
    rw [bytes.mem]
    congr 1
    omega
  rw [copyBackwards]
  dsimp only
  by_cases aligns : (src + length ||| (dst + length)) &&& wmask ≠ 0
  · obtain ⟨positive, small⟩ := @alignDown_le (dst + length) (src + length) length some aligns
    rw [if_pos aligns, if_pos aligns, tloop1_eq positive]
    have last := @tloop_carries length.toNat 0 _ _
      (fun i s => CopiedDown mem dst src length.toNat (length.toNat - i) s) 1 byte
      (alignDown (dst + length) (src + length) length).toNat
      (by rw [Nat.zero_add, Nat.one_mul]; exact UInt32.le_iff_toNat_le.mp small) start
    rw [Nat.zero_add, Nat.one_mul] at last
    exact finish small last
  · rw [if_neg aligns, if_neg aligns]
    have whole := finish UInt32.zero_le start
    rwa [UInt32.sub_zero] at whole

/-- `memcpy` moves the range, also onto itself. -/
theorem memcpy_eq_moved (dstFits : dst.toNat + length.toNat ≤ 2 ^ 32)
    (srcFits : src.toNat + length.toNat ≤ 2 ^ 32) :
    memcpy mem dst src length = (dst, moved mem dst.toNat src.toNat 0 length.toNat) := by
  rw [memcpy]
  by_cases nothing : length = 0 ∨ dst = src
  · rw [if_pos nothing]
    rcases nothing with none | same
    · rw [none]
      exact congrArg _ (moved_empty _ _ _ _).symm
    · rw [same, moved_self]
  · rw [if_neg nothing]
    have some : length ≠ 0 := fun none => nothing (.inl none)
    by_cases down : dst < src
    · rw [if_pos down, copyForward_mem down some dstFits srcFits]
    · rw [if_neg down, copyBackwards_mem (UInt32.not_lt.mp down) some dstFits srcFits]

/-- The copy of the images, which also copies ranges that wrap, is `memcpy` on ranges that do
not. -/
theorem memcpy_eq_copyBytes (dstFits : dst.toNat + length.toNat ≤ 2 ^ 32)
    (srcFits : src.toNat + length.toNat ≤ 2 ^ 32) :
    flat (memcpy mem dst src length).2 = flat (copyBytes mem dst src length.toNat) := by
  funext a
  have start := dst.toNat_lt
  have inSpace : a % 2 ^ 32 < 2 ^ 32 := Nat.mod_lt _ (Nat.two_pow_pos 32)
  rw [memcpy_eq_moved dstFits srcFits, flat, flat]
  dsimp only
  by_cases inside : dst.toNat ≤ a % 2 ^ 32 ∧ a % 2 ^ 32 < dst.toNat + length.toNat
  · obtain ⟨offset, place⟩ := Nat.exists_eq_add_of_le inside.1
    have offsetEq : (dst.toNat + offset + 2 ^ 32 - dst.toNat) % 2 ^ 32 = offset := by omega
    rw [place, moved_inside (Nat.zero_le _) (by omega), copyBytes, offsetEq, if_pos (by omega),
      flat, Nat.mod_eq_of_lt (by omega)]
  · rw [moved_outside (by omega), copyBytes, if_neg (by omega)]

/-- A string instruction copies as `memcpy` does where it overwrites no byte of the source that
it still has to copy. -/
theorem memcpy_eq_rep_movsb (dstFits : dst.toNat + length.toNat ≤ 2 ^ 32)
    (srcFits : src.toNat + length.toNat ≤ 2 ^ 32)
    (apart : dst.toNat ≤ src.toNat ∨ src.toNat + length.toNat ≤ dst.toNat) :
    (memcpy mem dst src length).2 = X86.copyBytes length.toNat dst src mem := by
  rw [memcpy_eq_moved dstFits srcFits, X86.copyBytes_eq_write dstFits srcFits apart,
    write_read_eq_moved]

/-- Whatever the overlap and the alignment, the range is found at its destination as it was
before, and nothing else changes. -/
theorem memcpy_memmove (mem : Mem) (dst src length : UInt32)
    (dstFits : dst.toNat + length.toNat ≤ 2 ^ 32) (srcFits : src.toNat + length.toNat ≤ 2 ^ 32) :
    (memcpy mem dst src length).1 = dst ∧
      read (memcpy mem dst src length).2 dst.toNat length.toNat =
        read mem src.toNat length.toNat ∧
      ∀ a, a < dst.toNat ∨ dst.toNat + length.toNat ≤ a →
        (memcpy mem dst src length).2 a = mem a := by
  rw [memcpy_eq_moved dstFits srcFits]
  refine ⟨rfl, ?_, fun a outside => moved_outside outside⟩
  apply List.map_congr_left
  intro offset member
  exact moved_inside (Nat.zero_le _) (List.mem_range.mp member)

/-- Two ranges that overlap in two bytes. -/
theorem memcpy_memmove_overlap :
    (memcpy (fun a => UInt8.ofNat a) 0x1002 0x1000 4).1 = 0x1002 ∧
      read (memcpy (fun a => UInt8.ofNat a) 0x1002 0x1000 4).2 0x1002 4 = [0, 1, 2, 3] ∧
      ∀ a, a < 0x1002 ∨ 0x1002 + 4 ≤ a →
        (memcpy (fun a => UInt8.ofNat a) 0x1002 0x1000 4).2 a = UInt8.ofNat a :=
  memcpy_memmove (fun a => UInt8.ofNat a) 0x1002 0x1000 4 (by decide) (by decide)

end Copies

end Sable
