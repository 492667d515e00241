import Thumb.Arithmetic
import Thumb.Host.Word
import Thumb.Register
import Thumb.SpecialRegister

/-! The registers of the machine in words of 64 bits. A register may be narrower than the word that
holds it, so whatever is written is masked first; the flags are bits of a word of their own, set
singly or all together. -/
namespace Thumb
namespace Host

structure Bank where
  width : Nat
  words : Array Word
  status : Word
  psp : Word
  primask : Word
  control : Word
  deriving DecidableEq

namespace Bank

def zeroed (width count : Nat) : Bank := ⟨width, Array.replicate count 0, 0, 0, 0, 0⟩

/-- The word with as many low bits set as a register has. -/
def mask? (b : Bank) : Option Word :=
  if 64 ≤ b.width then some (BitVec.allOnes 64) else lowBits? b.width

def read? (b : Bank) (i : Nat) : Option Word := b.words[i]?

/-- The bank with a word put into a numbered register. -/
def write? (b : Bank) (i : Nat) (v : Word) : Option Bank := do
  let mask ← b.mask?
  if h : i < b.words.size then some { b with words := b.words.set i (v &&& mask) } else none

def flagMask? (b : Bank) (flag : Flag) : Option Word := do
  shiftLeft? 1 (← minus? b.width flag.offset)

def flagsMask? (b : Bank) : Option Word := do
  return (← b.flagMask? .n) ||| (← b.flagMask? .z) ||| (← b.flagMask? .c) ||| (← b.flagMask? .v)

def isSet? (b : Bank) (flag : Flag) : Option Bool := do
  return b.status &&& (← b.flagMask? flag) != 0

def setFlag? (b : Bank) (flag : Flag) (value : Bool) : Option Bank := do
  let mask ← b.flagMask? flag
  return { b with status := if value then b.status ||| mask else b.status &&& ~~~mask }

/-- The bank with all flags replaced; their word is put together bit by bit. -/
def setFlags? (b : Bank) (flags : Flags) : Option Bank := do
  let status ← [Flag.n, .z, .c, .v].foldlM (fun acc flag => do
    if flags.get flag then return acc ||| (← b.flagMask? flag) else return acc) 0
  return { b with status }

def isNegative? (b : Bank) (v : Word) : Option Bool := do bit? v (← minus? b.width 1)

def isZero? (b : Bank) (v : Word) : Option Bool := do return v &&& (← b.mask?) == 0

/-- The carry of a sum, for which the computer has wider words, or the absence of a borrow. -/
def carry? (b : Bank) (op : Arith) (x y : Word) : Option Bool := do
  let mask ← b.mask?
  let x := x &&& mask
  let y := y &&& mask
  match op with
  | .add => return mask.toNat < x.toNat + y.toNat
  | .sub => return y ≤ x

/-- Whether the signs of the operands rule out the sign of the result. -/
def overflow? (b : Bank) (op : Arith) (x y result : Word) : Option Bool := do
  let xSign ← b.isNegative? x
  let ySign ← b.isNegative? y
  let sign ← b.isNegative? result
  match op with
  | .add => return xSign == ySign && sign != xSign
  | .sub => return xSign != ySign && sign != xSign

def setN? (b : Bank) (result : Word) : Option Bank := do b.setFlag? .n (← b.isNegative? result)

def setZ? (b : Bank) (result : Word) : Option Bank := do b.setFlag? .z (← b.isZero? result)

def setC? (b : Bank) (op : Arith) (x y : Word) : Option Bank := do
  b.setFlag? .c (← b.carry? op x y)

def setV? (b : Bank) (op : Arith) (x y result : Word) : Option Bank := do
  b.setFlag? .v (← b.overflow? op x y result)

/-- `N` and `Z`, one after the other. -/
def setNZ? (b : Bank) (result : Word) : Option Bank := do (← b.setN? result).setZ? result

def setNZCV? (b : Bank) (op : Arith) (x y result : Word) : Option Bank := do
  let n ← b.isNegative? result
  let z ← b.isZero? result
  let c ← b.carry? op x y
  let v ← b.overflow? op x y result
  b.setFlags? ⟨n, z, c, v⟩

/-- The sum of two words as register contents and a carry, with its own carry and overflow. -/
def addWithCarry? (b : Bank) (x y : Word) (carry : Bool) : Option (Word × Bool × Bool) := do
  let mask ← b.mask?
  let x := x &&& mask
  let y := y &&& mask
  let sum := x.toNat + y.toNat + carry.toNat
  let result := BitVec.ofNat 64 sum &&& mask
  let xSign ← b.isNegative? x
  let ySign ← b.isNegative? y
  let sign ← b.isNegative? result
  return (result, mask.toNat < sum, xSign == ySign && sign != xSign)

/-- The lowest `bits` bits of a word, extended as a signed number to the width of a register. -/
def signExtend? (b : Bank) (v : Word) (bits : Nat) : Option Word := do
  Host.signExtend? v bits (← b.mask?)

def readSpecial? (b : Bank) (r : SpecialRegister) : Option Word :=
  match r with
  | .apsr | .iapsr | .eapsr | .xpsr | .psr => some b.status
  | .ipsr | .epsr | .iepsr => some 0
  | .msp => b.read? Register.sp.index
  | .psp => some b.psp
  | .primask => some b.primask
  | .control => some b.control

/-- The bank with a word put into a special register, of which only the bits it has are kept. -/
def writeSpecial? (b : Bank) (r : SpecialRegister) (v : Word) : Option Bank := do
  match r with
  | .apsr | .iapsr | .eapsr | .xpsr | .psr => return { b with status := v &&& (← b.flagsMask?) }
  | .ipsr | .epsr | .iepsr => return b
  | .msp => b.write? Register.sp.index v
  | .psp => return { b with psp := v &&& (← b.mask?) }
  | .primask => return { b with primask := v &&& 1 }
  | .control => return { b with control := v &&& 3 }

end Bank
end Host
end Thumb
