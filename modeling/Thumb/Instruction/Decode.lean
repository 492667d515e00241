import Thumb.Constraint.Check
import Thumb.Instruction

/-! Reading the operands of an instruction. A mnemonic has one form or several, chosen by the kinds
of its tokens and by which registers coincide; each form constrains its operands in written order,
and the first requirement that fails is the one reported. -/
namespace Thumb
namespace Instruction

/-- The token as `R0` to `R7`. -/
def lowOperand (count : Nat) (t : Token) : Except OperandError Register :=
  Constraint.lowRegisters.register count t.text

def anyOperand (count : Nat) (t : Token) : Except OperandError Register :=
  Constraint.anyRegisters.register count t.text

def literalOperand (c : Constraint) (count : Nat) (t : Token) : Except OperandError Nat :=
  c.immediate count t.text

def specialOperand (count : Nat) (t : Token) : Except OperandError SpecialRegister :=
  Constraint.specialRegisters.special count t.text

/-- The token as a literal in the range of a constraint, or else as one of `R0` to `R7`. -/
def literalOrLowOperand (c : Constraint) (count : Nat) (t : Token) : Except OperandError Operand :=
  if t.kind = .immediate then (literalOperand c count t).map .immediate
  else (lowOperand count t).map .register

def labelOperand (m : Mnemonic) (t : Token) : Except OperandError String :=
  if t.kind = .label then .ok t.text else .error (.labelNeeded m t.text)

def twoLowOperands (count : Nat) (a b : Token) : Except OperandError (Register × Register) := do
  return (← lowOperand count a, ← lowOperand count b)

/-- Requires the destination to be the first source. -/
def requireSame (m : Mnemonic) (rd rn : Register) : Except OperandError Unit :=
  if rd = rn then .ok () else .error (.destinationNotFirst m rd rn)

/-- The source of a commutative operation that is not the destination. -/
def otherSource (m : Mnemonic) (rd rn rm : Register) : Except OperandError Register :=
  if rd = rn then .ok rm
  else if rd = rm then .ok rn
  else .error (.destinationNotSource m rd rn rm)

/-- Three low registers of which the first two coincide: the destination and the second source. -/
def accumulating (m : Mnemonic) (count : Nat) (a b c : Token) :
    Except OperandError (Register × Register) := do
  let (rd, rn) ← twoLowOperands count a b
  let rm ← lowOperand count c
  requireSame m rd rn
  return (rd, rm)

/-- Three low registers of which the first is one of the others: the destination and the other. -/
def commuting (m : Mnemonic) (count : Nat) (a b c : Token) :
    Except OperandError (Register × Register) := do
  let (rd, rn) ← twoLowOperands count a b
  let rm ← lowOperand count c
  return (rd, ← otherSource m rd rn rm)

/-- `ADDS` and `SUBS`: a literal is limited to three bits unless destination and source coincide. -/
def decodeArith (op : Arith) (count : Nat) (a b c : Token) : Except OperandError Instruction := do
  let (rd, rn) ← twoLowOperands count a b
  return .arith op rd rn (← literalOrLowOperand (if rd = rn then .imm8 else .imm3) count c)

/-- A shift by a literal in the range of `range`, or by a register into its own first source. -/
def decodeShift (op : Shift) (range : Constraint) (m : Mnemonic) (count : Nat) (a b c : Token) :
    Except OperandError Instruction := do
  let (rd, rm) ← twoLowOperands count a b
  match ← literalOrLowOperand range count c with
  | .immediate amount => return .shift op rd rm amount
  | .register amount =>
    requireSame m rd rm
    return .shiftBy op rd amount

/-- `ADD`: a literal is added to `SP`, or to `SP` or `PC` into a low register; a register is added
to the destination, or to `SP` or `PC`. -/
def decodeAdd (count : Nat) (a b c : Token) : Except OperandError Instruction := do
  let rd ← anyOperand count a
  let rn ← anyOperand count b
  let pointer := rn = .sp ∨ rn = .pc
  if c.kind = .immediate then
    if rd = .sp ∧ rn = .sp then
      return .add rd rn (.immediate (← literalOperand .imm9By4 count c))
    else if pointer then
      let rd ← lowOperand count a
      return .add rd rn (.immediate (← literalOperand .imm10By4 count c))
    else throw (.addImmediate rn)
  else
    let rm ← anyOperand count c
    if ¬pointer then requireSame .add rd rn
    return .add rd rn (.register rm)

/-- `SUB`, which only subtracts a literal from `SP`. -/
def decodeSub (count : Nat) (a b c : Token) : Except OperandError Instruction := do
  let rd ← anyOperand count a
  let rn ← anyOperand count b
  let amount ← literalOperand .imm9By4 count c
  if rd = .sp ∧ rn = .sp then return .subSp amount else throw (.subtract rd rn)

/-- `RSBS`, which only subtracts from the literal zero. -/
def decodeNegate (count : Nat) (a b c : Token) : Except OperandError Instruction := do
  let (rd, rn) ← twoLowOperands count a b
  let minuend ← literalOperand .imm8 count c
  if minuend = 0 then return .negate rd rn else throw (.reverseSubtract c.text)

/-- `CMP`, of a low register with a literal or of any two registers. -/
def decodeCompare (count : Nat) (a b : Token) : Except OperandError Instruction := do
  if b.kind = .immediate then
    let rn ← lowOperand count a
    return .compare rn (.immediate (← literalOperand .imm8 count b))
  else
    let rn ← anyOperand count a
    return .compare rn (.register (← anyOperand count b))

/-- `MOV`, which moves no literal. -/
def decodeMove (count : Nat) (a b : Token) : Except OperandError Instruction := do
  let rd ← anyOperand count a
  if b.kind = .immediate then throw (.moveImmediate b.text rd)
  else return .move rd (← anyOperand count b)

def decodeUnary (m : Mnemonic) (count : Nat) (a : Token) : Except OperandError Instruction :=
  match m with
  | .b cond => (labelOperand m a).map (.branch cond)
  | .bl => (labelOperand m a).map .branchLink
  | .blx => (anyOperand count a).map .branchLinkExchange
  | .bx => (anyOperand count a).map .branchExchange
  | _ => .error (.operandCount m 1)

def decodeBinary (m : Mnemonic) (count : Nat) (a b : Token) : Except OperandError Instruction :=
  let lows (make : Register → Register → Instruction) : Except OperandError Instruction :=
    (twoLowOperands count a b).map fun (x, y) => make x y
  match m with
  | .cmn => lows .compareSum
  | .cmp => decodeCompare count a b
  | .mov => decodeMove count a b
  | .movs => do
    let rd ← lowOperand count a
    return .moveSet rd (← literalOrLowOperand .imm8 count b)
  | .mrs => do
    let rd ← Constraint.linkOrGeneralRegisters.register count a.text
    return .readSpecial rd (← specialOperand count b)
  | .msr => do
    let special ← specialOperand count a
    return .writeSpecial special (← Constraint.generalRegisters.register count b.text)
  | .mvns => lows .moveNot
  | .rev => lows (.reverse .word)
  | .rev16 => lows (.reverse .halfwords)
  | .revsh => lows (.reverse .signedHalfword)
  | .sxtb => lows (.extend .sxtb)
  | .sxth => lows (.extend .sxth)
  | .tst => lows .test
  | .uxtb => lows (.extend .uxtb)
  | .uxth => lows (.extend .uxth)
  | _ => .error (.operandCount m 2)

def decodeTernary (m : Mnemonic) (count : Nat) (a b c : Token) : Except OperandError Instruction :=
  let accumulate (make : Register → Register → Instruction) : Except OperandError Instruction :=
    (accumulating m count a b c).map fun (rdn, rm) => make rdn rm
  let commute (make : Register → Register → Instruction) : Except OperandError Instruction :=
    (commuting m count a b c).map fun (rdn, rm) => make rdn rm
  match m with
  | .adcs => accumulate (.addCarry .add)
  | .add => decodeAdd count a b c
  | .adds => decodeArith .add count a b c
  | .ands => commute (.bitwise .and)
  | .asrs => decodeShift .asr .imm5Counting m count a b c
  | .bics => accumulate (.bitwise .bic)
  | .eors => commute (.bitwise .eor)
  | .lsls => decodeShift .lsl .imm5 m count a b c
  | .lsrs => decodeShift .lsr .imm5Counting m count a b c
  | .muls => commute .multiply
  | .orrs => commute (.bitwise .orr)
  | .rors => accumulate .rotateBy
  | .rsbs => decodeNegate count a b c
  | .sbcs => accumulate (.addCarry .sub)
  | .sub => decodeSub count a b c
  | .subs => decodeArith .sub count a b c
  | _ => .error (.operandCount m 3)

/-- The instruction that a mnemonic and its operand tokens make, on a machine with the given number
of registers. -/
def decode (m : Mnemonic) (registerCount : Nat) : List Token → Except OperandError Instruction
  | [] => if m = .nop then .ok .nop else .error (.operandCount m 0)
  | [a] => decodeUnary m registerCount a
  | [a, b] => decodeBinary m registerCount a b
  | [a, b, c] => decodeTernary m registerCount a b c
  | tokens => .error (.operandCount m tokens.length)

end Instruction
end Thumb
