import Sable.Machine

/-!
# Strings and output

The parts of `util.c` and `keyboard.c` that the boot flow uses: strings in
memory, messages on the screen, and the line editor `get_string`.
-/

namespace Sable

open ByteMemory BigEndian HaltingProgram

def text (message : String) : List UInt8 :=
  message.toList.map fun c => UInt8.ofNat c.toNat

/-- The bytes of the string at an address, up to its terminating zero.  The
address space has `2 ^ 32` bytes, so a search that takes longer never ends. -/
def cstringFrom (mem : Mem) : Nat → Nat → Option (List UInt8)
  | 0, _ => none
  | fuel + 1, addr =>
      if mem addr = 0 then some []
      else (cstringFrom mem fuel (addr + 1)).map (mem addr :: ·)

def cstring (mem : Mem) (addr : UInt32) : Option (List UInt8) :=
  cstringFrom mem (2 ^ 32) addr.toNat

section Output

variable {σ : Type}

/-- The string behind a pointer, for the loops that run to its end. -/
def loadString (ptr : UInt32) : Boot σ (List UInt8) := do
  let m ← Prog.get
  match cstring m.mem ptr with
  | some bytes => pure bytes
  | none => Prog.halt .spin

def outChar (value : UInt8) : Boot σ Unit :=
  emit (.output [value])

def outString (value : List UInt8) : Boot σ Unit :=
  emit (.output value)

/-- The digits that `out_hex` prints: the loop index starts at the highest set
bit of `value | 1 << bitlen`, rounded down to a multiple of four.  The shift is
one of 32 bits, so `bitlen` is less than 32. -/
def hexDigits (value : UInt32) (bitlen : Nat) : List UInt8 :=
  let start := Nat.log2 (value.toNat ||| 2 ^ bitlen) / 4
  (List.range (start + 1)).reverse.map fun k =>
    let digit := value.toNat / 16 ^ k % 16
    UInt8.ofNat (if 10 ≤ digit then digit + 7 + 0x30 else digit + 0x30)

def messageLabel : List UInt8 :=
  text "SABLE:   "

def outInfo (message : String) : Boot σ Unit :=
  outString (messageLabel ++ text message ++ text "\n")

def outDescription (message : String) (value : UInt32) : Boot σ Unit :=
  outString (messageLabel ++ text message ++ text ": 0x" ++
    hexDigits value 0 ++ text "\n")

def showHash (message : String) (hash : Block 20) : Boot σ Unit :=
  outString (messageLabel ++ text message ++
    (hash.bytes.map fun byte => hexDigits byte.toUInt32 7).flatten ++ text "\n")

/-- The next character from the keyboard, which waits if there is none. -/
def getchar : Boot σ UInt8 := fun m =>
  match m.keys with
  | [] => .halt .blocked m
  | key :: keys => .ok key { m with keys := keys }

/-- The loop of `get_string`, with the buffer and the number of characters
held.  Every iteration takes a character, so that the characters still to come
bound the iterations. -/
def getStringLoop (strSize : Nat) (shown : Bool) :
    Nat → Mem → Nat → Boot σ (Mem × Nat)
  | 0, _, _ => Prog.halt .blocked
  | fuel + 1, str, i =>
      if i < strSize then do
        let c ← getchar
        if c = 0x0D then return (str, i)
        if c = 0x08 then
          if 0 < i then do
            if shown then outChar c
            getStringLoop strSize shown fuel (write str i [0]) (i - 1)
          else getStringLoop strSize shown fuel (write str i [0]) i
        else if c = 0 then getStringLoop strSize shown fuel str i
        else do
          if shown then outChar c
          getStringLoop strSize shown fuel (write str i [c]) (i + 1)
      else pure (str, i)

/-- Read a line into the buffer `str`, which is addressed from zero; the result
is the buffer and the length of the line. -/
def getString (str : Mem) (strSize : Nat) (shown : Bool) :
    Boot σ (Mem × Nat) := do
  let _ ← getchar
  let m ← Prog.get
  let (str, i) ← getStringLoop strSize shown (m.keys.length + 1) str 0
  outChar 0x0A
  pure (write str i [0], i)

/-- `get_string` on a buffer in memory. -/
def getStringAt (ptr : UInt32) (strSize : Nat) (shown : Bool) : Boot σ Nat := do
  let m ← Prog.get
  let (str, i) ← getString (fun a => m.mem (ptr.toNat + a)) strSize shown
  if ptr = 0 then Prog.halt .fault
  else do
    Prog.modify fun m =>
      { m with mem := fun a => if ptr.toNat ≤ a then str (a - ptr.toNat) else m.mem a }
    pure i

end Output

end Sable
