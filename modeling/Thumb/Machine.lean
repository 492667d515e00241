import Thumb.Config
import Thumb.Program
import Thumb.RegisterFile.Named
import Thumb.RegisterFile.Perform

/-! The machine: a register file, the program it is fed line by line, and a count of the
instructions it has executed. A refused line and a failed instruction yield no new machine, so the
old one stands. -/
namespace Thumb

structure Machine (s : Shape) where
  registers : RegisterFile s
  program : Program
  executed : Nat
  deriving DecidableEq

inductive Stage
  /-- No line has been accepted. -/
  | empty
  /-- Lines have been accepted and none has been executed. -/
  | loaded
  /-- An instruction of the program has been executed. -/
  | ran
  deriving DecidableEq

namespace Machine

variable {s : Shape}

def new (s : Shape) : Machine s := ⟨RegisterFile.zero s, Program.empty, 0⟩

/-- The index of the instruction to execute next. -/
def pc (m : Machine s) : Nat := (m.registers.get .pc).toNat

def stage (m : Machine s) : Stage :=
  if 0 < m.executed then .ran else if m.program.size = 0 then .empty else .loaded

def assemble (m : Machine s) (line : String) : Except Error (Machine s) := do
  let program ← m.program.accept s.registerCount line
  return { m with program := program }

/-- The index of the label that an instruction names; without a label it is zero and has no part in
what the instruction does. -/
def target (m : Machine s) (i : Instruction) : Except Error Nat :=
  match i.label? with
  | none => .ok 0
  | some label =>
    match m.program.index? label with
    | some index => .ok index
    | none => .error (.validation (.labelUndefined label))

/-- The machine after an instruction executed at `PC`, which need not be one of the program. -/
def execute (m : Machine s) (i : Instruction) : Except Error (Machine s) :=
  (m.target i).map fun target => { m with registers := m.registers.perform target i }

/-- The machine after the instruction of its program at `PC`, if there is one. -/
def step (m : Machine s) : Except Error (Option (Machine s)) :=
  match m.program.get? m.pc with
  | none => .ok none
  | some entry =>
    (m.execute entry.instruction).map fun m' => some { m' with executed := m'.executed + 1 }

/-- How a run ends: past the end of the program, at an instruction that fails, or because it was
given no more fuel; in each case with the machine it has come to. -/
inductive Run (s : Shape)
  | halted (m : Machine s)
  | failed (m : Machine s) (e : Error)
  | exhausted (m : Machine s)

/-- Repeats `step` while there is an instruction at `PC`, for at most `fuel` fetches. -/
def run : Nat → Machine s → Run s
  | 0, m => .exhausted m
  | fuel + 1, m =>
    match m.step with
    | .error e => .failed m e
    | .ok none => .halted m
    | .ok (some m') => run fuel m'

@[simp] theorem stage_new : (new s).stage = .empty := rfl

/-- There is nothing to execute exactly when `PC` is past the end of the program. -/
theorem step_eq_none_iff (m : Machine s) : m.step = .ok none ↔ m.program.size ≤ m.pc := by
  rw [← Program.get?_eq_none_iff]
  unfold step
  split
  · next h => simp [h]
  · next h =>
    rw [h]
    cases m.execute _ <;> simp [Except.map]

end Machine
end Thumb
