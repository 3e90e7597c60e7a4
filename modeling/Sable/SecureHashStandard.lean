import Sable.BigEndianWords

/-!
# SHA-1 and HMAC-SHA1

The secure hash standard's SHA-1 over byte strings and the keyed hash of
RFC 2104 built on it: padding, message schedule, compression of one block and
the chaining over all blocks.
-/

namespace SecureHash

open BigEndian

/-- The rotation `ROTL`. -/
def rotl (count word : UInt32) : UInt32 :=
  (word <<< count) ||| (word >>> (32 - count))

/-- The logical function of step `t`. -/
def logical (t : Nat) (x y z : UInt32) : UInt32 :=
  if t < 20 then (x &&& y) ^^^ (~~~x &&& z)
  else if t < 40 then x ^^^ y ^^^ z
  else if t < 60 then (x &&& y) ^^^ (x &&& z) ^^^ (y &&& z)
  else x ^^^ y ^^^ z

/-- The constant of step `t`. -/
def stepConstant (t : Nat) : UInt32 :=
  if t < 20 then 0x5A827999
  else if t < 40 then 0x6ED9EBA1
  else if t < 60 then 0x8F1BBCDC
  else 0xCA62C1D6

/-- The five words of the working and of the chaining state. -/
structure Chain where
  a : UInt32
  b : UInt32
  c : UInt32
  d : UInt32
  e : UInt32
  deriving DecidableEq

/-- The initial chaining value. -/
def initial : Chain :=
  ⟨0x67452301, 0xEFCDAB89, 0x98BADCFE, 0x10325476, 0xC3D2E1F0⟩

/-- The `t`-th word of a message block. -/
def blockWord (block : List UInt8) (t : Nat) : UInt32 :=
  ofBe32 ((block.drop (4 * t)).take 4)

/-- The first `count` words of the message schedule, the latest one first. -/
def schedule (block : List UInt8) : Nat → List UInt32
  | 0 => []
  | t + 1 =>
      let earlier := schedule block t
      let word := if t < 16 then blockWord block t else
        rotl 1 (earlier.getD 2 0 ^^^ earlier.getD 7 0 ^^^
          earlier.getD 13 0 ^^^ earlier.getD 15 0)
      word :: earlier

/-- The schedule word `W t`. -/
def scheduleWord (block : List UInt8) (t : Nat) : UInt32 :=
  (schedule block (t + 1)).headD 0

/-- One of the eighty steps, with its schedule word. -/
def stepChain (t : Nat) (word : UInt32) (s : Chain) : Chain where
  a := rotl 5 s.a + logical t s.b s.c s.d + s.e + stepConstant t + word
  b := s.a
  c := rotl 30 s.b
  d := s.c
  e := s.d

/-- The working state after the given number of steps. -/
def steps (block : List UInt8) (start : Chain) : Nat → Chain
  | 0 => start
  | t + 1 => stepChain t (scheduleWord block t) (steps block start t)

/-- Compress one 64-byte block into the chaining value. -/
def compress (start : Chain) (block : List UInt8) : Chain :=
  let final := steps block start 80
  ⟨start.a + final.a, start.b + final.b, start.c + final.c,
    start.d + final.d, start.e + final.e⟩

/-- Compress the first `count` blocks of a byte string. -/
def chain (start : Chain) : Nat → List UInt8 → Chain
  | 0, _ => start
  | count + 1, bytes => chain (compress start (bytes.take 64)) count (bytes.drop 64)

/-- The message followed by the bit 1, zeros up to 56 bytes modulo 64 and the
message length in bits as a 64-bit number. -/
def pad (message : List UInt8) : List UInt8 :=
  message ++ 0x80 :: List.replicate ((119 - message.length % 64) % 64) 0 ++
    be32 (UInt32.ofNat (8 * message.length / 4294967296)) ++
    be32 (UInt32.ofNat (8 * message.length))

/-- The bytes of a chaining value. -/
def Chain.encode (s : Chain) : Block 20 :=
  ⟨be32 s.a ++ be32 s.b ++ be32 s.c ++ be32 s.d ++ be32 s.e, rfl⟩

/-- SHA-1. -/
def sha1 (message : List UInt8) : Block 20 :=
  (chain initial ((pad message).length / 64) (pad message)).encode

/-- The key brought to the 64 bytes of a block. -/
def blockKey (key : List UInt8) : List UInt8 :=
  let short := if key.length ≤ 64 then key else (sha1 key).bytes
  short ++ List.replicate (64 - short.length) 0

/-- HMAC-SHA1. -/
def hmac (key message : List UInt8) : Block 20 :=
  sha1 ((blockKey key).map (0x5c ^^^ ·) ++
    (sha1 ((blockKey key).map (0x36 ^^^ ·) ++ message)).bytes)

/-- The schedule lists its words in descending order. -/
theorem schedule_getD (block : List UInt8) {count index : Nat}
    (inside : index < count) :
    (schedule block count).getD index 0 =
      scheduleWord block (count - 1 - index) := by
  induction count generalizing index with
  | zero => omega
  | succ t ih =>
      cases index with
      | zero => rfl
      | succ index =>
          have earlier := ih (by omega : index < t)
          have position : t + 1 - 1 - (index + 1) = t - 1 - index := by omega
          rw [position, ← earlier]
          rfl

theorem scheduleWord_of_lt (block : List UInt8) {t : Nat} (early : t < 16) :
    scheduleWord block t = blockWord block t := by
  simp [scheduleWord, schedule, early]

/-- The recurrence of the message schedule. -/
theorem scheduleWord_of_ge (block : List UInt8) {t : Nat} (late : 16 ≤ t) :
    scheduleWord block t =
      rotl 1 (scheduleWord block (t - 3) ^^^ scheduleWord block (t - 8) ^^^
        scheduleWord block (t - 14) ^^^ scheduleWord block (t - 16)) := by
  have third := schedule_getD block (by omega : 2 < t)
  have eighth := schedule_getD block (by omega : 7 < t)
  have fourteenth := schedule_getD block (by omega : 13 < t)
  have sixteenth := schedule_getD block (by omega : 15 < t)
  have position (k : Nat) : t - 1 - k = t - (k + 1) := by omega
  rw [position] at third eighth fourteenth sixteenth
  rw [← third, ← eighth, ← fourteenth, ← sixteenth]
  simp [scheduleWord, schedule, Nat.not_lt.mpr late]

@[simp]
theorem chain_zero (start : Chain) (bytes : List UInt8) :
    chain start 0 bytes = start :=
  rfl

/-- Chaining over more blocks continues from the value reached. -/
theorem chain_add (start : Chain) (first second : Nat) (bytes : List UInt8) :
    chain start (first + second) bytes =
      chain (chain start first bytes) second (bytes.drop (64 * first)) := by
  induction first generalizing start bytes with
  | zero => simp
  | succ first ih =>
      have count : first + 1 + second = first + second + 1 := by omega
      rw [count, chain, chain, ih, List.drop_drop]
      have offset : 64 + 64 * first = 64 * (first + 1) := by omega
      rw [offset]

/-- Only the chained blocks matter. -/
theorem chain_append (start : Chain) {count : Nat} {bytes : List UInt8}
    (whole : 64 * count ≤ bytes.length) (rest : List UInt8) :
    chain start count (bytes ++ rest) = chain start count bytes := by
  induction count generalizing start bytes with
  | zero => rfl
  | succ count ih =>
      rw [chain, chain, List.take_append_of_le_length (by omega),
        List.drop_append_of_le_length (by omega),
        ih _ (by rw [List.length_drop]; omega)]

theorem chain_succ (start : Chain) (count : Nat) (bytes : List UInt8) :
    chain start (count + 1) bytes =
      compress (chain start count bytes) ((bytes.drop (64 * count)).take 64) := by
  rw [chain_add]
  rfl

/-- The length of a padded message of known block count and remainder. -/
theorem length_pad (message : List UInt8) :
    (pad message).length =
      64 * (message.length / 64 + if message.length % 64 < 56 then 1 else 2) := by
  simp only [pad, List.length_append, List.length_cons, List.length_replicate,
    length_be32]
  split <;> omega

@[simp]
theorem length_blockKey (key : List UInt8) : (blockKey key).length = 64 := by
  by_cases short : key.length ≤ 64
  · simp [blockKey, short]
  · simp [blockKey, short]

theorem blockKey_of_le {key : List UInt8} (short : key.length ≤ 64) :
    blockKey key = key ++ List.replicate (64 - key.length) 0 := by
  simp [blockKey, short]

end SecureHash
