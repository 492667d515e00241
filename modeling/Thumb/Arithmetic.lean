import Thumb.Flags

/-! Addition and subtraction of register contents, with the carry and the overflow they leave in the
flags. The carry is that of the unbounded sum; after a subtraction it is the absence of a borrow. -/
namespace Thumb

inductive Arith
  | add
  | sub
  deriving DecidableEq

namespace Arith

variable {w : Nat}

/-- The result, modulo `2 ^ w`. -/
def eval (op : Arith) (a b : BitVec w) : BitVec w :=
  match op with
  | add => a + b
  | sub => a - b

/-- Whether the unbounded sum does not fit, or the difference is not negative. -/
def carry (op : Arith) (a b : BitVec w) : Bool :=
  match op with
  | add => a.uaddOverflow b
  | sub => !a.usubOverflow b

/-- Whether the signs of the operands rule out the sign of the given result. -/
def overflow (op : Arith) (a b result : BitVec w) : Bool :=
  match op with
  | add => a.msb == b.msb && result.msb != a.msb
  | sub => a.msb != b.msb && result.msb != a.msb

/-- The second addend of the operation as an addition with carry: itself, or its complement. -/
def addend (op : Arith) (b : BitVec w) : BitVec w :=
  match op with
  | add => b
  | sub => ~~~b

end Arith

namespace Flags

variable {w : Nat}

def withResult (f : Flags) (result : BitVec w) : Flags :=
  { f with n := result.msb, z := result == 0 }

/-- The four flags of an operation on `a` and `b` whose result is taken to be the given one. -/
def ofArith (op : Arith) (a b result : BitVec w) : Flags :=
  ⟨result.msb, result == 0, op.carry a b, op.overflow a b result⟩

end Flags

structure CarrySum (w : Nat) where
  result : BitVec w
  carry : Bool
  overflow : Bool

def CarrySum.flags {w : Nat} (s : CarrySum w) : Flags :=
  ⟨s.result.msb, s.result == 0, s.carry, s.overflow⟩

def addWithCarry {w : Nat} (a b : BitVec w) (carry : Bool) : CarrySum w :=
  let result := a + b + BitVec.ofNat w carry.toNat
  ⟨result, BitVec.carry w a b carry, Arith.add.overflow a b result⟩

@[simp] theorem addWithCarry_false_result {w : Nat} (a b : BitVec w) :
    (addWithCarry a b false).result = a + b := by simp [addWithCarry]

/-- An addition without carry in is the addition that sets the flags. -/
theorem addWithCarry_false_flags {w : Nat} (a b : BitVec w) :
    (addWithCarry a b false).flags = Flags.ofArith .add a b (a + b) := by
  simp [addWithCarry, CarrySum.flags, Flags.ofArith, Arith.carry, BitVec.carry,
    BitVec.uaddOverflow, Nat.mod_eq_of_lt a.isLt, Nat.mod_eq_of_lt b.isLt]

end Thumb
