import Thumb.Instruction
import Thumb.RegisterFile

/-! What an instruction does to the register file. `PC` counts instructions; read by an instruction
it is the index of that instruction, and writing it as a destination is a jump. -/
namespace Thumb

/-- The registers and flags that an instruction leaves, `PC` being still at the instruction, and
where control goes next if not to the following instruction. -/
structure Effect (s : Shape) where
  registers : RegisterFile s
  target? : Option s.Word

namespace RegisterFile

variable {s : Shape}

def value (f : RegisterFile s) : Operand → s.Word
  | .register r => f.get r
  | .immediate n => s.word n

/-- The low byte of a register, which is what a shift by a register takes as its amount. -/
def lowByte (f : RegisterFile s) (r : Register) : Nat := ((f.get r).setWidth 8).toNat

def stay (f : RegisterFile s) : Effect s := ⟨f, none⟩

def jump (f : RegisterFile s) (target : s.Word) : Effect s := ⟨f, some target⟩

def put (f : RegisterFile s) (rd : Register) (v : s.Word) : Effect s :=
  if rd = .pc then f.jump v else (f.set rd v).stay

/-- A word put into a destination register, with `N` and `Z` set from it. -/
def putResult (f : RegisterFile s) (rd : Register) (v : s.Word) : Effect s :=
  (f.setFlags (f.flags.withResult v)).put rd v

/-- A shifted word put into a destination register, with `N`, `Z` and, if a bit was shifted out, `C`
set from it. -/
def putShifted (f : RegisterFile s) (rd : Register) (v : Shifted s.bits) : Effect s :=
  (f.setFlags { f.flags with c := v.carry.getD f.flags.c }).putResult rd v.value

def setArithFlags (f : RegisterFile s) (op : Arith) (a b : s.Word) : RegisterFile s :=
  f.setFlags (Flags.ofArith op a b (op.eval a b))

/-- The result of an operation put into a destination register, with all four flags set. -/
def putArith (f : RegisterFile s) (op : Arith) (rd : Register) (a b : s.Word) : Effect s :=
  (f.setArithFlags op a b).put rd (op.eval a b)

def following (f : RegisterFile s) : s.Word := f.get .pc + 1

/-- The effect of an instruction whose label, if it names one, stands at the index `target`. -/
def effect (f : RegisterFile s) (target : Nat) : Instruction → Effect s
  | .addCarry op rdn rm =>
    let sum := Thumb.addWithCarry (f.get rdn) (op.addend (f.get rm)) f.flags.c
    ((f.set rdn sum.result).setFlags sum.flags).stay
  | .add rd rn source => f.put rd (f.get rn + f.value source)
  | .arith op rd rn source => f.putArith op rd (f.get rn) (f.value source)
  | .negate rd rn => f.putArith .sub rd 0 (f.get rn)
  | .subSp amount => f.put .sp (f.get .sp - s.word amount)
  | .multiply rdm rn => f.putResult rdm (f.get rdm * f.get rn)
  | .bitwise op rdn rm => f.putResult rdn (op.eval (f.get rdn) (f.get rm))
  | .shift op rd rm amount => f.putShifted rd (op.eval (f.get rm) amount)
  | .shiftBy op rdn rm => f.putShifted rdn (op.eval (f.get rdn) (f.lowByte rm))
  | .rotateBy rdn rm => f.putShifted rdn (rotateRight (f.get rdn) (f.lowByte rm))
  | .move rd rm => f.put rd (f.get rm)
  | .moveSet rd source => f.putResult rd (f.value source)
  | .moveNot rd rm => f.putResult rd (~~~f.get rm)
  | .compare rn source => (f.setArithFlags .sub (f.get rn) (f.value source)).stay
  | .compareSum rn rm => (f.setArithFlags .add (f.get rn) (f.get rm)).stay
  | .test rn rm => (f.setFlags (f.flags.withResult (f.get rn &&& f.get rm))).stay
  | .reverse op rd rm => f.put rd (op.eval (f.get rm))
  | .extend op rd rm => f.put rd (op.eval (f.get rm))
  | .readSpecial rd special => f.put rd (f.load (special.location s))
  | .writeSpecial special rn => (f.store (special.location s) (f.get rn)).stay
  | .branch cond _ => if cond.holds f.flags then f.jump (s.word target) else f.stay
  | .branchLink _ => (f.set .lr f.following).jump (s.word target)
  | .branchLinkExchange rm => (f.set .lr f.following).jump (f.get rm)
  | .branchExchange rm => f.jump (f.get rm)
  | .nop => f.stay

/-- The register file after an instruction whose label, if it names one, stands at the index
`target`. `PC` moves last, so of a carrying sum into `PC` only the flags remain. -/
def perform (f : RegisterFile s) (target : Nat) (i : Instruction) : RegisterFile s :=
  let e := f.effect target i
  e.registers.set .pc (e.target?.getD f.following)

@[simp] theorem get_pc_perform (f : RegisterFile s) (target : Nat) (i : Instruction) :
    (f.perform target i).get .pc = (f.effect target i).target?.getD f.following := by
  simp [perform]

theorem get_perform_of_ne {r : Register} (h : r ≠ .pc) (f : RegisterFile s) (target : Nat)
    (i : Instruction) : (f.perform target i).get r = (f.effect target i).registers.get r := by
  simp [perform, h]

@[simp] theorem flags_perform (f : RegisterFile s) (target : Nat) (i : Instruction) :
    (f.perform target i).flags = (f.effect target i).registers.flags := rfl

/-- A destination other than `PC` holds the word put into it, and control goes on. -/
theorem put_of_ne {rd : Register} (h : rd ≠ .pc) (f : RegisterFile s) (v : s.Word) :
    f.put rd v = (f.set rd v).stay := by simp [put, h]

@[simp] theorem put_pc (f : RegisterFile s) (v : s.Word) : f.put .pc v = f.jump v := rfl

end RegisterFile
end Thumb
