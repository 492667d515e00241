import Thumb.Proofs.FlagAgreement
import Thumb.Proofs.ProgramCounter
import Thumb.Proofs.Rendering
import Thumb.Proofs.Traces
import Thumb.Proofs.WrittenMeaning

/-! A loop that counts down to zero. From its lines to the machine that a run of it leaves: one pass
takes one off the counter, the passes are as many as the counter says, and the instructions executed
are known one by one. The test comes after the counting, so that a counter which is zero at the start
runs through all words. -/
namespace Thumb

variable {s : Shape}

namespace Machine

variable {m : Machine s}

end Machine

namespace CountingLoop

open Machine

/-- The loop as it is written: `R1` grows by a literal and `R0` shrinks by one, until it is zero. -/
def lines (k : ℕ) : List String :=
  ["loop ADDS R1, R1, #" ++ toString k, " SUBS R0, R0, #1", " BNE loop"]

def body (k : ℕ) : List Instruction :=
  [.arith .add .r1 .r1 (.immediate k), .arith .sub .r0 .r0 (.immediate 1), .branch .ne "loop"]

def program (k : ℕ) : Program where
  entries := #[
    ⟨"loop ADDS R1, R1, #" ++ toString k, some "loop", .adds, .arith .add .r1 .r1 (.immediate k)⟩,
    ⟨" SUBS R0, R0, #1", none, .subs, .arith .sub .r0 .r0 (.immediate 1)⟩,
    ⟨" BNE loop", none, .b .ne, .branch .ne "loop"⟩]
  labels := [("loop", 0)]

/-- The number of passes from a counter of `w` bits that holds `n`. -/
def passes (w n : ℕ) : ℕ := if n = 0 then 2 ^ w else n

section Loading

variable {k count : ℕ}

end Loading

section Pass

variable {m m' : Machine s} {k : ℕ}

end Pass

end CountingLoop
end Thumb
