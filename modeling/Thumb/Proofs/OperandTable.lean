import Thumb.Instruction
import Thumb.Proofs.TokenReading

/-! The operand table: with which operands an instruction can be written, row by row. The table
knows nothing of how tokens are read. -/
namespace Thumb
namespace Instruction

/-- The rows of the operand table: the operands that an instruction is written with. -/
inductive HasForm : Instruction → List Written → Prop
  | addCarry {op : Arith} {rd rm : Register} (hd : rd.isLow) (hm : rm.isLow) :
      HasForm (.addCarry op rd rm) [.register rd, .register rd, .register rm]
  | addRegister {rd rn rm : Register} (h : rd = rn ∨ rn = .sp ∨ rn = .pc) :
      HasForm (.add rd rn (.register rm)) [.register rd, .register rn, .register rm]
  | addToSp {n : Nat} (hn : n ≤ 508) (h4 : 4 ∣ n) :
      HasForm (.add .sp .sp (.immediate n)) [.register .sp, .register .sp, .literal n]
  | addToPointer {rd rn : Register} {n : Nat} (hd : rd.isLow) (h : rn = .sp ∨ rn = .pc)
      (hn : n ≤ 1020) (h4 : 4 ∣ n) :
      HasForm (.add rd rn (.immediate n)) [.register rd, .register rn, .literal n]
  | arithRegister {op : Arith} {rd rn rm : Register} (hd : rd.isLow) (hs : rn.isLow)
      (hm : rm.isLow) :
      HasForm (.arith op rd rn (.register rm)) [.register rd, .register rn, .register rm]
  | arithLiteral {op : Arith} {rd rn : Register} {n : Nat} (hd : rd.isLow) (hs : rn.isLow)
      (hn : n ≤ if rd = rn then 255 else 7) :
      HasForm (.arith op rd rn (.immediate n)) [.register rd, .register rn, .literal n]
  | negate {rd rn : Register} (hd : rd.isLow) (hs : rn.isLow) :
      HasForm (.negate rd rn) [.register rd, .register rn, .literal 0]
  | subSp {n : Nat} (hn : n ≤ 508) (h4 : 4 ∣ n) :
      HasForm (.subSp n) [.register .sp, .register .sp, .literal n]
  | multiplyFirst {rd rn : Register} (hd : rd.isLow) (hs : rn.isLow) :
      HasForm (.multiply rd rn) [.register rd, .register rd, .register rn]
  | multiplySecond {rd rn : Register} (hd : rd.isLow) (hs : rn.isLow) :
      HasForm (.multiply rd rn) [.register rd, .register rn, .register rd]
  | bitwiseFirst {op : Bitwise} {rd rm : Register} (hd : rd.isLow) (hm : rm.isLow) :
      HasForm (.bitwise op rd rm) [.register rd, .register rd, .register rm]
  | bitwiseSecond {op : Bitwise} {rd rm : Register} (hop : op ≠ .bic) (hd : rd.isLow)
      (hm : rm.isLow) :
      HasForm (.bitwise op rd rm) [.register rd, .register rm, .register rd]
  | shiftLeft {rd rm : Register} {n : Nat} (hd : rd.isLow) (hm : rm.isLow) (hn : n ≤ 31) :
      HasForm (.shift .lsl rd rm n) [.register rd, .register rm, .literal n]
  | shiftRight {op : Shift} {rd rm : Register} {n : Nat} (hop : op ≠ .lsl) (hd : rd.isLow)
      (hm : rm.isLow) (hpos : 1 ≤ n) (hn : n ≤ 32) :
      HasForm (.shift op rd rm n) [.register rd, .register rm, .literal n]
  | shiftBy {op : Shift} {rd rm : Register} (hd : rd.isLow) (hm : rm.isLow) :
      HasForm (.shiftBy op rd rm) [.register rd, .register rd, .register rm]
  | rotateBy {rd rm : Register} (hd : rd.isLow) (hm : rm.isLow) :
      HasForm (.rotateBy rd rm) [.register rd, .register rd, .register rm]
  | move {rd rm : Register} : HasForm (.move rd rm) [.register rd, .register rm]
  | moveSetRegister {rd rm : Register} (hd : rd.isLow) (hm : rm.isLow) :
      HasForm (.moveSet rd (.register rm)) [.register rd, .register rm]
  | moveSetLiteral {rd : Register} {n : Nat} (hd : rd.isLow) (hn : n ≤ 255) :
      HasForm (.moveSet rd (.immediate n)) [.register rd, .literal n]
  | moveNot {rd rm : Register} (hd : rd.isLow) (hm : rm.isLow) :
      HasForm (.moveNot rd rm) [.register rd, .register rm]
  | compareRegister {rn rm : Register} :
      HasForm (.compare rn (.register rm)) [.register rn, .register rm]
  | compareLiteral {rn : Register} {n : Nat} (hs : rn.isLow) (hn : n ≤ 255) :
      HasForm (.compare rn (.immediate n)) [.register rn, .literal n]
  | compareSum {rn rm : Register} (hs : rn.isLow) (hm : rm.isLow) :
      HasForm (.compareSum rn rm) [.register rn, .register rm]
  | test {rn rm : Register} (hs : rn.isLow) (hm : rm.isLow) :
      HasForm (.test rn rm) [.register rn, .register rm]
  | reverse {op : Reversal} {rd rm : Register} (hd : rd.isLow) (hm : rm.isLow) :
      HasForm (.reverse op rd rm) [.register rd, .register rm]
  | extend {op : Extension} {rd rm : Register} (hd : rd.isLow) (hm : rm.isLow) :
      HasForm (.extend op rd rm) [.register rd, .register rm]
  | readSpecial {rd : Register} {special : SpecialRegister} (h : rd = .lr ∨ rd.index ≤ 12) :
      HasForm (.readSpecial rd special) [.register rd, .special special]
  | writeSpecial {special : SpecialRegister} {rn : Register} (h : rn.index ≤ 12) :
      HasForm (.writeSpecial special rn) [.special special, .register rn]
  | branch {cond : Condition} {label : String} : HasForm (.branch cond label) [.label label]
  | branchLink {label : String} : HasForm (.branchLink label) [.label label]
  | branchLinkExchange {rm : Register} : HasForm (.branchLinkExchange rm) [.register rm]
  | branchExchange {rm : Register} : HasForm (.branchExchange rm) [.register rm]
  | nop : HasForm .nop []

/-- The tokens say operands that the instruction can be written with. -/
def Matches (i : Instruction) (tokens : List Token) : Prop :=
  ∃ ws, List.Forall₂ Token.Says tokens ws ∧ i.HasForm ws

end Instruction
end Thumb
