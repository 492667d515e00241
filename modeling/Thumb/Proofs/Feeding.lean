import Thumb.Proofs.ProgramLabels
import Thumb.Proofs.Runs

/-! Programs fed in pieces. A line that comes later changes nothing for the instructions before it:
assembling it and executing one of them can be exchanged, so that feeding a program piece by piece,
each run to its end before the next is fed, comes to the same as feeding it at once. -/
namespace Thumb
namespace Program

/-- The program that is left when a line has been tried. -/
def tried (p : Program) (registerCount : Nat) (line : String) : Program :=
  (p.accept registerCount line).toOption.getD p

theorem tried_of_ok {p q : Program} {registerCount : Nat} {line : String}
    (h : p.accept registerCount line = .ok q) : p.tried registerCount line = q := by
  rw [tried, h]
  rfl

theorem tried_of_error {p : Program} {registerCount : Nat} {line : String} {e : Error}
    (h : p.accept registerCount line = .error e) : p.tried registerCount line = p := by
  rw [tried, h]
  rfl

theorem extends_tried (p : Program) (registerCount : Nat) (line : String) :
    p.Extends (p.tried registerCount line) := by
  cases h : p.accept registerCount line with
  | error e =>
    rw [tried_of_error h]
    exact .refl p
  | ok q =>
    rw [tried_of_ok h]
    obtain ⟨entry, -, happ⟩ := bind_eq_ok_iff.mp h
    exact extends_of_append (mapError_eq_ok_iff.mp happ)

end Program

namespace Machine

variable {s : Shape}

def verdict (m : Machine s) (line : String) : Except Error Unit := (m.assemble line).map fun _ => ()

def feed (m : Machine s) (lines : List String) : Machine s := m.afterAll (lines.map .assemble)

@[simp] theorem feed_nil (m : Machine s) : m.feed [] = m := rfl

@[simp] theorem feed_cons (m : Machine s) (line : String) (lines : List String) :
    m.feed (line :: lines) = (m.after (.assemble line)).feed lines := rfl

theorem feed_append (m : Machine s) (lines lines' : List String) :
    m.feed (lines ++ lines') = (m.feed lines).feed lines' := by
  induction lines generalizing m with
  | nil => rfl
  | cons line lines ih => exact ih (m.after (.assemble line))

theorem verdict_eq (m : Machine s) (line : String) :
    m.verdict line = (m.program.accept s.registerCount line).map fun _ => () := by
  rw [verdict, assemble]
  cases m.program.accept s.registerCount line <;> rfl

theorem after_assemble (m : Machine s) (line : String) :
    m.after (.assemble line) = { m with program := m.program.tried s.registerCount line } := by
  change (m.assemble line).toOption.getD m = _
  rw [assemble, Program.tried]
  cases m.program.accept s.registerCount line <;> rfl

/-- What an instruction does does not depend on what comes after the program it was written for. -/
theorem execute_of_extends {m m' : Machine s} {i : Instruction} {q : Program}
    (hq : m.program.Extends q) (h : m.execute i = .ok m') :
    { m with program := q }.execute i = .ok { m' with program := q } := by
  obtain ⟨target, ht, rfl⟩ := eq_of_execute h
  have htarget : { m with program := q }.target i = .ok target := by
    unfold Machine.target at ht ⊢
    cases hl : i.label? with
    | none => simpa only [hl] using ht
    | some label =>
      simp only [hl] at ht ⊢
      cases hi : m.program.index? label with
      | none => simp only [hi] at ht; cases ht
      | some index => simpa only [hi, hq.index? label index hi] using ht
  rw [execute, htarget]
  rfl

theorem step_of_extends {m m' : Machine s} {q : Program} (hq : m.program.Extends q)
    (h : m.step = .ok (some m')) :
    { m with program := q }.step = .ok (some { m' with program := q }) := by
  obtain ⟨e, m₁, he, hx, rfl⟩ := eq_of_step h
  have he' : q.get? { m with program := q }.pc = some e := hq.get? m.pc e he
  rw [step]
  simp only [he', execute_of_extends hq hx]
  rfl

theorem verdict_step {m m' : Machine s} (h : m.step = .ok (some m')) (line : String) :
    m'.verdict line = m.verdict line := by
  rw [verdict_eq, verdict_eq, program_step h]

theorem step_after_assemble {m m' : Machine s} (h : m.step = .ok (some m')) (line : String) :
    (m.after (.assemble line)).step = .ok (some (m'.after (.assemble line))) := by
  rw [after_assemble, after_assemble, program_step h]
  exact step_of_extends (m.program.extends_tried s.registerCount line) h

theorem Steps.after_assemble {k : Nat} {m m' : Machine s} (h : Steps k m m') (line : String) :
    Steps k (m.after (.assemble line)) (m'.after (.assemble line)) := by
  induction h with
  | refl => exact .refl _
  | cons hs _ ih => exact .cons (step_after_assemble hs line) ih

theorem Steps.feed {k : Nat} {m m' : Machine s} (h : Steps k m m') (lines : List String) :
    Steps k (m.feed lines) (m'.feed lines) := by
  induction lines generalizing m m' with
  | nil => exact h
  | cons line lines ih => exact ih (h.after_assemble line)

theorem Steps.verdict {k : Nat} {m m' : Machine s} (h : Steps k m m') (line : String) :
    m'.verdict line = m.verdict line := by
  induction h with
  | refl => rfl
  | cons hs _ ih => exact ih.trans (verdict_step hs line)

/-- Feeding pieces one by one, each after the run of the program so far has come to its end, and the
run after the last of them. -/
inductive FedInPieces : Machine s → List (List String) → Run s → Prop
  | last {m : Machine s} {lines : List String} {r : Run s} (h : (m.feed lines).RunsTo r) :
    FedInPieces m [lines] r
  | next {m m₁ : Machine s} {lines : List String} {pieces : List (List String)} {r : Run s}
    (h : (m.feed lines).RunsTo (.halted m₁)) (rest : FedInPieces m₁ pieces r) :
    FedInPieces m (lines :: pieces) r

theorem exists_steps_of_runsTo_halted {m m₁ : Machine s} (h : m.RunsTo (.halted m₁)) :
    ∃ k, Steps k m m₁ := by
  obtain ⟨k, m', hsteps, hstops⟩ := h
  cases hstops with
  | halted => exact ⟨k, hsteps⟩

/-- However a program is cut into pieces, running each before the next is fed ends as running the
whole. -/
theorem FedInPieces.runsTo {m : Machine s} {pieces : List (List String)} {r : Run s}
    (h : FedInPieces m pieces r) : (m.feed pieces.flatten).RunsTo r := by
  induction h with
  | last h => simpa using h
  | @next m m₁ lines pieces r h _ ih =>
    obtain ⟨k, hsteps⟩ := exists_steps_of_runsTo_halted h
    rw [List.flatten_cons, feed_append, ← (hsteps.feed pieces.flatten).runsTo_iff]
    exact ih

/-- Assembling and executing commute. Where a step succeeds, a line tried before it or after it is
judged the same, and the step succeeds the same and leaves the same machine; and where a run halts,
lines fed to the machine it leaves are judged as on the machine before it, and running on ends there
exactly as one run does with the lines fed before. A program fed in pieces so behaves as the program
fed at once. -/
theorem feeding_commutes (m : Machine s) :
    (∀ m' line, m.step = .ok (some m') → m'.verdict line = m.verdict line ∧
      (m.after (.assemble line)).step = .ok (some (m'.after (.assemble line)))) ∧
    (∀ fuel m₁ lines, m.run fuel = .halted m₁ →
      (∀ line, (m₁.feed lines).verdict line = (m.feed lines).verdict line) ∧
      ∀ r, (m₁.feed lines).RunsTo r ↔ (m.feed lines).RunsTo r) ∧
    ∀ pieces r, FedInPieces m pieces r → (m.feed pieces.flatten).RunsTo r := by
  refine ⟨?_, ?_, fun pieces r h => h.runsTo⟩
  · intro m' line h
    exact ⟨verdict_step h line, step_after_assemble h line⟩
  · intro fuel m₁ lines h
    obtain ⟨k, hsteps⟩ := exists_steps_of_runsTo_halted (runsTo_iff.mpr ⟨nofun, fuel, h⟩)
    have hfed := hsteps.feed lines
    exact ⟨fun line => hfed.verdict line, fun r => hfed.runsTo_iff⟩

def leaping : Machine (.architectural .w32) := (new _).feed [" MOVS R0, #3", " MOV PC, R0"]

theorem feeding_commutes_leaping : ∃ m₁ m₂ m₃ : Machine (.architectural .w32),
    leaping.step = .ok (some m₁) ∧ leaping.run 3 = .halted m₂ ∧
    (leaping.after (.assemble " NOP")).step = .ok (some (m₁.after (.assemble " NOP"))) ∧
    (∀ r, (m₂.feed [" NOP", " MOVS R1, #7"]).RunsTo r ↔
      (leaping.feed [" NOP", " MOVS R1, #7"]).RunsTo r) ∧
    ((new _).feed [" MOVS R0, #3", " MOV PC, R0", " NOP", " MOVS R1, #7"]).RunsTo (.halted m₃) ∧
    m₃.registers.get .r1 = 7 := by
  have hfirst : leaping.step = .ok (some (leaping.after .step)) := by decide +kernel
  have hjump : (leaping.after .step).step = .ok (some (leaping.afterAll [.step, .step])) := by
    decide +kernel
  have hend : (leaping.afterAll [.step, .step]).step = .ok none := by decide +kernel
  have hsteps : Steps 2 leaping (leaping.afterAll [.step, .step]) :=
    .cons hfirst (.cons hjump (.refl _))
  have hrun : leaping.run 3 = .halted (leaping.afterAll [.step, .step]) :=
    (hsteps.run_eq 1).trans ((Stops.halted hend).run_eq 0)
  let fed := (leaping.afterAll [.step, .step]).feed [" NOP", " MOVS R1, #7"]
  have hlast : fed.step = .ok (some (fed.after .step)) := by decide +kernel
  have hdone : (fed.after .step).step = .ok none := by decide +kernel
  have hpieces : FedInPieces (new (.architectural .w32))
      [[" MOVS R0, #3", " MOV PC, R0"], [" NOP", " MOVS R1, #7"]] (.halted (fed.after .step)) :=
    .next ⟨2, _, hsteps, .halted hend⟩ (.last ⟨1, _, .cons hlast (.refl _), .halted hdone⟩)
  exact ⟨_, _, fed.after .step, hfirst, hrun, ((feeding_commutes leaping).1 _ " NOP" hfirst).2,
    ((feeding_commutes leaping).2.1 3 _ _ hrun).2, (feeding_commutes _).2.2 _ _ hpieces,
    by decide +kernel⟩

end Machine
end Thumb
