import Thumb.Shift

/-! Words of 64 bits, as a computer that runs the machine has them, and the operations on registers
that it has to compose from its own. An operation that the computer traps on has no outcome: a shift
by 64 bits or more, a difference below zero, a count that does not fit, a remainder by zero. -/
namespace Thumb
namespace Host

/-- A word of the computer. -/
abbrev Word : Type := BitVec 64

/-- A count of bits or bytes, for which the computer has 32 bits. -/
def count? (n : Nat) : Option Nat := if n < UInt32.size then some n else none

def minus? (a b : Nat) : Option Nat := if b ≤ a then some (a - b) else none

def mod? (a b : Nat) : Option Nat := if b = 0 then none else some (a % b)

def shiftLeft? (v : Word) (n : Nat) : Option Word := if n < 64 then some (v <<< n) else none

def shiftRight? (v : Word) (n : Nat) : Option Word := if n < 64 then some (v >>> n) else none

/-- A shift to the right that repeats the sign bit of the word. -/
def signedShiftRight? (v : Word) (n : Nat) : Option Word :=
  if n < 64 then some (v.sshiftRight n) else none

def bit? (v : Word) (n : Nat) : Option Bool := do return (← shiftRight? v n) &&& 1 != 0

/-- The word with `n` low bits set, as a power of two less one. -/
def lowBits? (n : Nat) : Option Word := do
  let power ← shiftLeft? 1 n
  if power = 0 then none else some (power - 1)

/-- A shift of a register of `width` bits to the left, with the last bit shifted out. -/
def lsl? (v : Word) (amount width : Nat) (mask : Word) : Option (Word × Option Bool) :=
  if amount = 0 then some (v, none)
  else if amount < width then do
    let carry ← bit? v (← minus? width amount)
    return ((← shiftLeft? v amount) &&& mask, some carry)
  else if amount = width then some (0, some (v &&& 1 != 0))
  else some (0, some false)

def lsr? (v : Word) (amount width : Nat) : Option (Word × Option Bool) :=
  if amount = 0 then some (v, none)
  else if amount < width then do
    let carry ← bit? v (← minus? amount 1)
    return (← shiftRight? v amount, some carry)
  else if amount = width then do return (0, some (← bit? v (← minus? width 1)))
  else some (0, some false)

/-- Arithmetic shift right: the sign bit is moved up to the top of the word, so that it is repeated
on the way down. -/
def asr? (v : Word) (amount width : Nat) (mask : Word) : Option (Word × Option Bool) := do
  let negative ← bit? v (← minus? width 1)
  if amount = 0 then return (v, none)
  else if width ≤ amount then return if negative then (mask, some true) else (0, some false)
  else
    let spare ← minus? 64 width
    let signed ← signedShiftRight? (← shiftLeft? v spare) spare
    let carry ← bit? v (← minus? amount 1)
    return ((← signedShiftRight? signed amount) &&& mask, some carry)

/-- The register with its lowest `n` bits moved to the top, where `n` is less than `width`. -/
def turn? (v : Word) (n width : Nat) (mask : Word) : Option Word :=
  if n = 0 then some v
  else do return ((← shiftRight? v n) ||| (← shiftLeft? v (← minus? width n))) &&& mask

/-- Rotation to the right; the bit moved last is the new top bit. -/
def ror? (v : Word) (amount width : Nat) (mask : Word) : Option (Word × Option Bool) :=
  if amount = 0 then some (v, none)
  else do
    let result ← turn? v (← mod? amount width) width mask
    return (result, some (← bit? result (← minus? width 1)))

def shift? (op : Shift) (v : Word) (amount width : Nat) (mask : Word) :
    Option (Word × Option Bool) :=
  match op with
  | .lsl => lsl? v amount width mask
  | .lsr => lsr? v amount width
  | .asr => asr? v amount width mask

/-- Adds byte `i` of the lowest `bytes` bytes at its place from the other end. -/
def putReversed? (v : Word) (bytes : Nat) (acc : Word) (i : Nat) : Option Word := do
  let byte := (← shiftRight? v (← count? (8 * i))) &&& 0xff
  return acc ||| (← shiftLeft? byte (← count? (8 * (← minus? (← minus? bytes 1) i))))

/-- The lowest `width / 8` bytes, last first. -/
def reverseBytes? (v : Word) (width : Nat) : Option Word :=
  (List.range (width / 8)).foldlM (putReversed? v (width / 8)) 0

/-- Adds the two bytes of a halfword, exchanged. -/
def putSwapped? (v acc : Word) (half : Nat) : Option Word := do
  let place ← count? (16 * half)
  let next ← count? (place + 8)
  let low := (← shiftRight? v place) &&& 0xff
  let high := (← shiftRight? v next) &&& 0xff
  return acc ||| (← shiftLeft? low next) ||| (← shiftLeft? high place)

def reverseHalfwords? (v : Word) (width : Nat) : Option Word :=
  (List.range (width / 16)).foldlM (putSwapped? v) 0

/-- The lowest `bits` bits, at least one, extended by their top bit. -/
def signExtend? (v : Word) (bits : Nat) (mask : Word) : Option Word :=
  if bits < 64 then do
    let low ← lowBits? bits
    let field := v &&& low
    if ← bit? field (← minus? bits 1) then return (field ||| ~~~low) &&& mask
    else return field &&& mask
  else some (v &&& mask)

end Host
end Thumb
