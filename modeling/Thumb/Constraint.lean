import Thumb.SpecialRegister

/-! The operand constraints: classes of registers, the special registers, and ranges of immediates
with an alignment. A constraint knows nothing of the instruction that imposes it. -/
namespace Thumb

inductive Constraint
  | lowRegisters
  | highRegisters
  | generalRegisters
  | anyRegisters
  | linkOrGeneralRegisters
  | specialRegisters
  | imm3
  | imm5
  | imm5Counting
  | imm6By2
  | imm7By4
  | imm8
  | imm9By4
  | imm10By4
  deriving DecidableEq

/-- A range of register numbers, to which `LR` may be added, and what a member is called. -/
structure RegisterClass where
  low : Nat
  high : Nat
  link : Bool
  noun : String
  deriving DecidableEq

def RegisterClass.admits (c : RegisterClass) (n : Nat) : Bool :=
  (c.link && n == 14) || (c.low ≤ n && n ≤ c.high)

/-- A range of immediates, all multiples of `step`. -/
structure ImmediateRange where
  low : Nat
  high : Nat
  step : Nat
  deriving DecidableEq

def ImmediateRange.admits (r : ImmediateRange) (n : Nat) : Bool :=
  r.low ≤ n && n ≤ r.high && n % r.step == 0

inductive Domain
  | registers (c : RegisterClass)
  | special
  | immediates (r : ImmediateRange)

namespace Constraint

def all : List Constraint :=
  [lowRegisters, highRegisters, generalRegisters, anyRegisters, linkOrGeneralRegisters,
    specialRegisters, imm3, imm5, imm5Counting, imm6By2, imm7By4, imm8, imm9By4, imm10By4]

def name : Constraint → String
  | lowRegisters => "low_registers"
  | highRegisters => "high_registers"
  | generalRegisters => "general_purpose_registers"
  | anyRegisters => "any_registers"
  | linkOrGeneralRegisters => "LR_or_general_purpose_registers"
  | specialRegisters => "special_registers"
  | imm3 => "imm3"
  | imm5 => "imm5"
  | imm5Counting => "imm5_counting"
  | imm6By2 => "imm6_2"
  | imm7By4 => "imm7_4"
  | imm8 => "imm8"
  | imm9By4 => "imm9_4"
  | imm10By4 => "imm10_4"

/-- The constraint of the given name, exactly as spelled. -/
def ofName? (s : String) : Option Constraint := all.find? fun c => c.name == s

/-- The catalogue: what each constraint admits. -/
def domain : Constraint → Domain
  | lowRegisters => .registers ⟨0, 7, false, "a low register"⟩
  | highRegisters => .registers ⟨8, 12, false, "a high register"⟩
  | generalRegisters => .registers ⟨0, 12, false, "a general purpose register"⟩
  | anyRegisters => .registers ⟨0, 15, false, "a register"⟩
  | linkOrGeneralRegisters => .registers ⟨0, 12, true, "LR or a general purpose register"⟩
  | specialRegisters => .special
  | imm3 => .immediates ⟨0, 7, 1⟩
  | imm5 => .immediates ⟨0, 31, 1⟩
  | imm5Counting => .immediates ⟨1, 32, 1⟩
  | imm6By2 => .immediates ⟨0, 62, 2⟩
  | imm7By4 => .immediates ⟨0, 124, 4⟩
  | imm8 => .immediates ⟨0, 255, 1⟩
  | imm9By4 => .immediates ⟨0, 508, 4⟩
  | imm10By4 => .immediates ⟨0, 1020, 4⟩

@[simp] theorem ofName?_name (c : Constraint) : ofName? c.name = some c := by
  cases c <;> decide +kernel

end Constraint
end Thumb
