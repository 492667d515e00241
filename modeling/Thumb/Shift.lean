/-! Shifts and rotates by any amount, each with the last bit it moves out of the word. An amount of
zero moves nothing, and then there is no such bit. -/
namespace Thumb

/-- A shifted word and the last bit shifted out of it. -/
structure Shifted (w : Nat) where
  value : BitVec w
  carry : Option Bool
  deriving DecidableEq

inductive Shift
  /-- Logical shift left. -/
  | lsl
  /-- Logical shift right. -/
  | lsr
  /-- Arithmetic shift right, which repeats the sign bit. -/
  | asr
  deriving DecidableEq

/-- A word shifted by an amount, which may exceed the width. -/
def Shift.eval {w : Nat} (op : Shift) (v : BitVec w) (amount : Nat) : Shifted w :=
  if amount = 0 then ⟨v, none⟩
  else match op with
    | lsl => if amount ≤ w then ⟨v <<< amount, v.getLsbD (w - amount)⟩ else ⟨0, false⟩
    | lsr => if amount ≤ w then ⟨v >>> amount, v.getLsbD (amount - 1)⟩ else ⟨0, false⟩
    | asr => ⟨v.sshiftRight (min amount w), v.getLsbD (min amount w - 1)⟩

/-- A word rotated to the right; the bit moved last is the new top bit. -/
def rotateRight {w : Nat} (v : BitVec w) (amount : Nat) : Shifted w :=
  if amount = 0 then ⟨v, none⟩
  else
    let value := v.rotateRight amount
    ⟨value, value.msb⟩

@[simp] theorem Shift.eval_zero {w : Nat} (op : Shift) (v : BitVec w) :
    op.eval v 0 = ⟨v, none⟩ := rfl

@[simp] theorem rotateRight_zero {w : Nat} (v : BitVec w) : rotateRight v 0 = ⟨v, none⟩ := rfl

example : Shift.lsl.eval (0x8001 : BitVec 16) 16 = ⟨0, some true⟩ := by decide

example : Shift.asr.eval (0x8000 : BitVec 16) 99 = ⟨0xffff, some true⟩ := by decide

end Thumb
