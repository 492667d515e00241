import Thumb.Host.Bank
import Thumb.Program

/-! Instructions executed in place. The computer does one thing after another to its bank, so that an
instruction which fails midway would leave behind what it has done so far. -/
namespace Thumb
namespace Host

/-- Something done to a bank: it can fail, and then the bank is as it is at that point; and it has no
outcome if the computer traps. -/
abbrev Action (α : Type) : Type := ExceptT Error (StateT Bank Option) α

namespace Action

def ask {α : Type} (f : Bank → Option α) : Action α := fun b => (f b).map fun a => (.ok a, b)

def change (f : Bank → Option Bank) : Action Unit := fun b => (f b).map fun b' => (.ok (), b')

def read (r : Register) : Action Word := ask fun b => b.read? r.index

def write (r : Register) (v : Word) : Action Unit := change fun b => b.write? r.index v

def source : Operand → Action Word
  | .register r => read r
  | .immediate n => pure (BitVec.ofNat 64 n)

/-- The index of a label, which the program has to have. -/
def resolve (p : Program) (label : String) : Action Word :=
  match p.index? label with
  | some i => pure (BitVec.ofNat 64 i)
  | none => throw (.validation (.labelUndefined label))

/-- Puts a word into a destination; if that is `PC`, it is where to go next. -/
def put (rd : Register) (v : Word) : Action (Option Word) := do
  if rd = .pc then return some (v &&& (← ask Bank.mask?))
  else
    write rd v
    return none

def putResult (rd : Register) (v : Word) : Action (Option Word) := do
  change fun b => b.setNZ? v
  put rd v

/-- Puts a shifted word into a destination, after setting `C` if a bit was shifted out. -/
def putShifted (rd : Register) (v : Word × Option Bool) : Action (Option Word) := do
  match v.2 with
  | some carry => change fun b => b.setFlag? .c carry
  | none => pure ()
  putResult rd v.1

/-- Sets all flags from an operation, whose result it returns. -/
def setArithFlags (op : Arith) (x y : Word) : Action Word := do
  let result := op.eval x y &&& (← ask Bank.mask?)
  change fun b => b.setNZCV? op x y result
  return result

/-- A sum with carry, in the first operand and in the flags. -/
def addCarry (rdn : Register) (x y : Word) : Action Unit := do
  let carry ← ask fun b => b.isSet? .c
  let (result, c, v) ← ask fun b => b.addWithCarry? x y carry
  write rdn result
  let n ← ask fun b => b.isNegative? result
  change fun b => b.setFlags? ⟨n, result == 0, c, v⟩

def amount (r : Register) : Action Nat := do return ((← read r) &&& 0xff).toNat

def holds (cond : Condition) : Action Bool := do
  let n ← ask fun b => b.isSet? .n
  let z ← ask fun b => b.isSet? .z
  let c ← ask fun b => b.isSet? .c
  let v ← ask fun b => b.isSet? .v
  return cond.holds ⟨n, z, c, v⟩

/-- Does to the bank what an instruction at `pc` does, apart from moving `PC`, and says where to go next
if not to the following instruction. -/
def effect (p : Program) (pc : Word) (i : Instruction) : Action (Option Word) := do
  let mask ← ask Bank.mask?
  let width ← ask fun b => some b.width
  match i with
  | .addCarry op rdn rm =>
    let x ← read rdn
    let y ← read rm
    match op with
    | .add => addCarry rdn x y
    | .sub => addCarry rdn x (~~~y &&& mask)
    return none
  | .add rd rn src => put rd (((← read rn) + (← source src)) &&& mask)
  | .arith op rd rn src => put rd (← setArithFlags op (← read rn) (← source src))
  | .negate rd rn => put rd (← setArithFlags .sub 0 (← read rn))
  | .subSp n => put .sp (((← read .sp) - BitVec.ofNat 64 n) &&& mask)
  | .multiply rdm rn => putResult rdm (((← read rdm) * (← read rn)) &&& mask)
  | .bitwise op rdn rm =>
    let x ← read rdn
    let y ← read rm
    match op with
    | .and => putResult rdn (x &&& y)
    | .bic => putResult rdn (x &&& ~~~y &&& mask)
    | .eor => putResult rdn (x ^^^ y)
    | .orr => putResult rdn (x ||| y)
  | .shift op rd rm n =>
    let x ← read rm
    putShifted rd (← ask fun _ => shift? op x n width mask)
  | .shiftBy op rdn rm =>
    let n ← amount rm
    let x ← read rdn
    putShifted rdn (← ask fun _ => shift? op x n width mask)
  | .rotateBy rdn rm =>
    let n ← amount rm
    let x ← read rdn
    putShifted rdn (← ask fun _ => ror? x n width mask)
  | .move rd rm => put rd (← read rm)
  | .moveSet rd (.register rm) => putResult rd (← read rm)
  | .moveSet rd (.immediate n) => putResult rd (BitVec.ofNat 64 n &&& mask)
  | .moveNot rd rm => putResult rd (~~~(← read rm) &&& mask)
  | .compare rn src =>
    let _ ← setArithFlags .sub (← read rn) (← source src)
    return none
  | .compareSum rn rm =>
    let _ ← setArithFlags .add (← read rn) (← read rm)
    return none
  | .test rn rm =>
    let x ← read rn
    let y ← read rm
    change fun b => b.setNZ? (x &&& y)
    return none
  | .reverse op rd rm =>
    let x ← read rm
    match op with
    | .word => put rd (← ask fun _ => reverseBytes? x width)
    | .halfwords => put rd (← ask fun _ => reverseHalfwords? x width)
    | .signedHalfword =>
      let low ← ask fun _ => reverseHalfwords? (x &&& 0xffff) 16
      put rd (← ask fun _ => signExtend? low 16 mask)
  | .extend op rd rm =>
    let x ← read rm
    match op with
    | .sxtb => put rd (← ask fun _ => signExtend? x 8 mask)
    | .sxth => put rd (← ask fun _ => signExtend? x 16 mask)
    | .uxtb => put rd (x &&& 0xff)
    | .uxth => put rd (x &&& 0xffff)
  | .readSpecial rd special =>
    put rd (← ask fun b => b.readSpecial? special)
  | .writeSpecial special rn =>
    let x ← read rn
    change fun b => b.writeSpecial? special x
    return none
  | .branch cond label =>
    let target ← resolve p label
    if ← holds cond then return some target else return none
  | .branchLink label =>
    let target ← resolve p label
    write .lr (pc + 1)
    return some target
  | .branchLinkExchange rm =>
    let target ← read rm
    write .lr (pc + 1)
    return some target
  | .branchExchange rm => return some (← read rm)
  | .nop => return none

/-- Does to the bank what an instruction of the program does. `PC` moves last. -/
def perform (p : Program) (i : Instruction) : Action Unit := do
  let pc ← read .pc
  let target? ← effect p pc i
  write .pc (target?.getD (pc + 1))

end Action
end Host
end Thumb
