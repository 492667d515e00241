import Thumb.Bytes
import Thumb.RegisterFile

/-! The register file as its users see it: values are natural numbers of any size, which count
modulo two to the register width, and the flags are set one by one or together. -/
namespace Thumb
namespace Shape

/-- The largest number that a register holds. -/
def largest (s : Shape) : Nat := (BitVec.allOnes s.bits).toNat

/-- The bit of a flag in the status word, as a number. -/
def flagMask (s : Shape) (flag : Flag) : Nat := (flag.mask s.bits).toNat

/-- Whether a number, as register contents, has its sign bit set. -/
def isNegative (s : Shape) (n : Nat) : Bool := (s.word n).msb

def addWithCarry (s : Shape) (a b : Nat) (carry : Bool) : CarrySum s.bits :=
  Thumb.addWithCarry (s.word a) (s.word b) carry

/-- The low `bits` bits of a 64-bit number, read as a signed number. -/
def signExtend (s : Shape) (n bits : Nat) : s.Word := Thumb.signExtend s.bits bits n

end Shape

namespace RegisterFile

variable {s : Shape}

def read (f : RegisterFile s) (l : Location s) : Nat := (f.load l).toNat

def write (f : RegisterFile s) (l : Location s) (n : Nat) : RegisterFile s := f.store l (s.word n)

@[simp] theorem read_write_of_ne {l l' : Location s} (h : l' ≠ l) (f : RegisterFile s) (n : Nat) :
    (f.write l n).read l' = f.read l' := by simp [read, write, h]

def flag (f : RegisterFile s) (flag : Flag) : Bool := f.flags.get flag

def setFlag (f : RegisterFile s) (flag : Flag) (b : Bool) : RegisterFile s :=
  f.setFlags (f.flags.set flag b)

def setN (f : RegisterFile s) (result : Nat) : RegisterFile s := f.setFlag .n (s.isNegative result)

def setZ (f : RegisterFile s) (result : Nat) : RegisterFile s := f.setFlag .z (s.word result == 0)

def setC (f : RegisterFile s) (op : Arith) (a b : Nat) : RegisterFile s :=
  f.setFlag .c (op.carry (s.word a) (s.word b))

/-- `V` taken from an operation on `a` and `b` with the given result. -/
def setV (f : RegisterFile s) (op : Arith) (a b result : Nat) : RegisterFile s :=
  f.setFlag .v (op.overflow (s.word a) (s.word b) (s.word result))

def setNZ (f : RegisterFile s) (result : Nat) : RegisterFile s :=
  f.setFlags (f.flags.withResult (s.word result))

/-- All four flags taken from an operation on `a` and `b` with the given result. -/
def setNZCV (f : RegisterFile s) (op : Arith) (a b result : Nat) : RegisterFile s :=
  f.setFlags (Flags.ofArith op (s.word a) (s.word b) (s.word result))

@[simp] theorem flag_setFlag_self (f : RegisterFile s) (flag : Flag) (b : Bool) :
    (f.setFlag flag b).flag flag = b := Flags.get_set_self f.flags flag b

@[simp] theorem flag_setFlag_of_ne {flag flag' : Flag} (h : flag' ≠ flag) (f : RegisterFile s)
    (b : Bool) : (f.setFlag flag b).flag flag' = f.flag flag' := Flags.get_set_of_ne h f.flags b

end RegisterFile
end Thumb
