import Thumb.Host.Perform
import Thumb.Machine

/-! The machine as a computer holds it, changed in place. A call that fails leaves whatever it has
made of the state by then. -/
namespace Thumb
namespace Host

/-- A bank, a program and a count of the instructions executed. -/
structure State where
  bank : Bank
  program : Program
  executed : Nat
  deriving DecidableEq

namespace State

def new (c : Config) : State := ⟨Bank.zeroed c.bitWidth c.registerCount, Program.empty, 0⟩

def execute (h : State) (i : Instruction) : Option (Except Error Unit × State) :=
  (Action.perform h.program i h.bank).map fun (outcome, bank) => (outcome, { h with bank := bank })

/-- Executes the instruction of the program at `PC`, and says whether there was one. -/
def step (h : State) : Option (Except Error Bool × State) := do
  let pc ← h.bank.read? Register.pc.index
  match h.program.get? pc.toNat with
  | none => return (.ok false, h)
  | some entry =>
    match ← h.execute entry.instruction with
    | (.error e, h') => return (.error e, h')
    | (.ok _, h') => return (.ok true, { h' with executed := h'.executed + 1 })

/-- Repeats `step` for at most `fuel` fetches; without an outcome it has not ended by then. -/
def run : Nat → State → Option (Option (Except Error Unit) × State)
  | 0, h => some (none, h)
  | fuel + 1, h => do
    match ← h.step with
    | (.error e, h') => return (some (.error e), h')
    | (.ok false, h') => return (some (.ok ()), h')
    | (.ok true, h') => run fuel h'

end State
end Host
end Thumb
