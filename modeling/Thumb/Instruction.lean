import Thumb.Arithmetic
import Thumb.Bytes
import Thumb.Mnemonic
import Thumb.Register
import Thumb.Shift
import Thumb.SpecialRegister

/-! Instructions with their operands read. Registers are named by their role: `rd` is written, `rn`
and `rm` are read, `rdn` and `rdm` are both; several names of an instruction may be one register. -/
namespace Thumb

/-- A second source: a register or a literal number. -/
inductive Operand
  | register (r : Register)
  | immediate (n : Nat)
  deriving DecidableEq

inductive Bitwise
  | and
  /-- Bit clear: the first word without the bits of the second. -/
  | bic
  | eor
  | orr
  deriving DecidableEq

def Bitwise.eval {w : Nat} (op : Bitwise) (a b : BitVec w) : BitVec w :=
  match op with
  | and => a &&& b
  | bic => a &&& ~~~b
  | eor => a ^^^ b
  | orr => a ||| b

inductive Instruction
  /-- `ADCS` and `SBCS`. -/
  | addCarry (op : Arith) (rdn rm : Register)
  /-- `ADD`, which leaves the flags. -/
  | add (rd rn : Register) (source : Operand)
  /-- `ADDS` and `SUBS`. -/
  | arith (op : Arith) (rd rn : Register) (source : Operand)
  /-- `RSBS`, which subtracts from zero. -/
  | negate (rd rn : Register)
  /-- `SUB` from the stack pointer. -/
  | subSp (amount : Nat)
  /-- `MULS`. -/
  | multiply (rdm rn : Register)
  /-- `ANDS`, `BICS`, `EORS` and `ORRS`. -/
  | bitwise (op : Bitwise) (rdn rm : Register)
  /-- `LSLS`, `LSRS` and `ASRS` by a literal amount. -/
  | shift (op : Shift) (rd rm : Register) (amount : Nat)
  /-- `LSLS`, `LSRS` and `ASRS` by the low byte of a register. -/
  | shiftBy (op : Shift) (rdn rm : Register)
  /-- `RORS`, by the low byte of a register. -/
  | rotateBy (rdn rm : Register)
  /-- `MOV`, which leaves the flags. -/
  | move (rd rm : Register)
  /-- `MOVS`. -/
  | moveSet (rd : Register) (source : Operand)
  /-- `MVNS`, which moves the complement. -/
  | moveNot (rd rm : Register)
  /-- `CMP`: the flags of a difference. -/
  | compare (rn : Register) (source : Operand)
  /-- `CMN`: the flags of a sum. -/
  | compareSum (rn rm : Register)
  /-- `TST`: the flags of a bitwise `and`. -/
  | test (rn rm : Register)
  /-- `REV`, `REV16` and `REVSH`. -/
  | reverse (op : Reversal) (rd rm : Register)
  /-- `SXTB`, `SXTH`, `UXTB` and `UXTH`. -/
  | extend (op : Extension) (rd rm : Register)
  /-- `MRS`. -/
  | readSpecial (rd : Register) (special : SpecialRegister)
  /-- `MSR`. -/
  | writeSpecial (special : SpecialRegister) (rn : Register)
  /-- `B` under a condition. -/
  | branch (cond : Condition) (label : String)
  /-- `BL`, which keeps the return address in `LR`. -/
  | branchLink (label : String)
  /-- `BLX`, which also keeps it and goes where a register says. -/
  | branchLinkExchange (rm : Register)
  /-- `BX`. -/
  | branchExchange (rm : Register)
  | nop
  deriving DecidableEq

namespace Instruction

/-- The label that the instruction has to find in the program. -/
def label? : Instruction → Option String
  | branch _ label | branchLink label => some label
  | _ => none

def destination? : Instruction → Option Register
  | addCarry _ rdn _ | bitwise _ rdn _ | shiftBy _ rdn _ | rotateBy rdn _ => some rdn
  | add rd _ _ | arith _ rd _ _ | negate rd _ | shift _ rd _ _ | move rd _ | moveSet rd _
  | moveNot rd _ | reverse _ rd _ | extend _ rd _ | readSpecial rd _ => some rd
  | multiply rdm _ => some rdm
  | subSp _ => some .sp
  | _ => none

def mnemonic : Instruction → Mnemonic
  | addCarry .add _ _ => .adcs
  | addCarry .sub _ _ => .sbcs
  | add _ _ _ => .add
  | arith .add _ _ _ => .adds
  | arith .sub _ _ _ => .subs
  | negate _ _ => .rsbs
  | subSp _ => .sub
  | multiply _ _ => .muls
  | bitwise .and _ _ => .ands
  | bitwise .bic _ _ => .bics
  | bitwise .eor _ _ => .eors
  | bitwise .orr _ _ => .orrs
  | shift .lsl _ _ _ | shiftBy .lsl _ _ => .lsls
  | shift .lsr _ _ _ | shiftBy .lsr _ _ => .lsrs
  | shift .asr _ _ _ | shiftBy .asr _ _ => .asrs
  | rotateBy _ _ => .rors
  | move _ _ => .mov
  | moveSet _ _ => .movs
  | moveNot _ _ => .mvns
  | compare _ _ => .cmp
  | compareSum _ _ => .cmn
  | test _ _ => .tst
  | reverse .word _ _ => .rev
  | reverse .halfwords _ _ => .rev16
  | reverse .signedHalfword _ _ => .revsh
  | extend .sxtb _ _ => .sxtb
  | extend .sxth _ _ => .sxth
  | extend .uxtb _ _ => .uxtb
  | extend .uxth _ _ => .uxth
  | readSpecial _ _ => .mrs
  | writeSpecial _ _ => .msr
  | branch cond _ => .b cond
  | branchLink _ => .bl
  | branchLinkExchange _ => .blx
  | branchExchange _ => .bx
  | nop => .nop

/-- The instructions that name a label are those whose name takes one. -/
theorem isSome_label?_eq (i : Instruction) : i.label?.isSome = i.mnemonic.takesLabel := by
  cases i with
  | addCarry op | arith op | bitwise op | shift op | shiftBy op | reverse op | extend op =>
    cases op <;> rfl
  | _ => rfl

end Instruction
end Thumb
