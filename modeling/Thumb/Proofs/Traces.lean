import Thumb.Proofs.Frame
import Thumb.Proofs.Runs

/-! Successful steps and the instructions they execute. What none of these instructions touches is at
the end as it was, however many they are and wherever control goes between them. -/
namespace Thumb
namespace Machine

variable {s : Shape} {m m' : Machine s}

theorem executed_step (h : m.step = .ok (some m')) : m'.executed = m.executed + 1 := by
  obtain ⟨e, m₁, -, hx, rfl⟩ := eq_of_step h
  obtain ⟨target, -, rfl⟩ := eq_of_execute hx
  rfl

theorem Steps.executed_eq {k : ℕ} (h : Steps k m m') : m'.executed = m.executed + k := by
  induction h with
  | refl => rfl
  | cons hs _ ih =>
    rw [ih, executed_step hs]
    omega

/-- The second machine is what successful steps make of the first which execute the given
instructions, in this order. -/
inductive Executes : List Instruction → Machine s → Machine s → Prop
  | nil (m : Machine s) : Executes [] m m
  | cons {m m₁ m' : Machine s} {e : Entry} {is : List Instruction}
    (he : m.program.get? m.pc = some e) (h : m.step = .ok (some m₁)) (tail : Executes is m₁ m') :
    Executes (e.instruction :: is) m m'

theorem Executes.append {is js : List Instruction} {m₁ : Machine s} (h : Executes is m m₁)
    (h' : Executes js m₁ m') : Executes (is ++ js) m m' := by
  induction h with
  | nil => exact h'
  | cons he hs _ ih => exact .cons he hs (ih h')

def trace : ℕ → Machine s → Option (List Instruction × Machine s)
  | 0, m => some ([], m)
  | k + 1, m => do
    let e ← m.program.get? m.pc
    let m₁ ← m.step.toOption.join
    let (is, m') ← trace k m₁
    return (e.instruction :: is, m')

theorem executes_of_trace {k : ℕ} {is : List Instruction} (h : m.trace k = some (is, m')) :
    Executes is m m' := by
  induction k generalizing m is with
  | zero =>
    cases h
    exact .nil _
  | succ k ih =>
    obtain ⟨e, he, h⟩ := Option.bind_eq_some_iff.mp h
    obtain ⟨m₁, hs, h⟩ := Option.bind_eq_some_iff.mp h
    obtain ⟨⟨is', m''⟩, htail, h⟩ := Option.bind_eq_some_iff.mp h
    cases h
    refine .cons he ?_ (ih htail)
    cases hstep : m.step with
    | error err =>
      rw [hstep] at hs
      cases hs
    | ok next =>
      rw [hstep] at hs
      cases hs
      rfl

theorem load_step {e : Entry} {l : Location s} (he : m.program.get? m.pc = some e)
    (hs : m.step = .ok (some m')) (hl : ¬e.instruction.Touches l) :
    m'.registers.load l = m.registers.load l := by
  obtain ⟨e', m₁, he', hx, rfl⟩ := eq_of_step hs
  cases he.symm.trans he'
  obtain ⟨target, -, rfl⟩ := eq_of_execute hx
  exact m.registers.load_perform target hl

/-- Steps leave what none of their instructions touches. -/
theorem Executes.load_eq {is : List Instruction} {l : Location s} (h : Executes is m m')
    (hl : ∀ i ∈ is, ¬i.Touches l) : m'.registers.load l = m.registers.load l := by
  induction h with
  | nil => rfl
  | cons he hs _ ih =>
    obtain ⟨hfirst, hrest⟩ := List.forall_mem_cons.mp hl
    exact (ih hrest).trans (load_step he hs hfirst)

end Machine
end Thumb
