import Thumb.Proofs.Host.Histories
import Thumb.Proofs.ProgramLabels
import Thumb.Proofs.Runs

/-! Failing instructions. An instruction fails only because it names a label that the program does
not have, whether or not it would have branched there; the machine then stays as it was, also when it
is changed in place, and a run that comes to such an instruction stays in front of it however often
it is tried again. -/
namespace Thumb
namespace Machine

variable {s : Shape}

/-- The instruction names a label that no entry of the program bears. -/
def LabelMissing (m : Machine s) (i : Instruction) (label : String) : Prop :=
  ((∃ cond, i = .branch cond label) ∨ i = .branchLink label) ∧
    ∀ k e, m.program.get? k = some e → e.label ≠ some label

theorem label?_eq_some_iff {i : Instruction} {label : String} :
    i.label? = some label ↔ (∃ cond, i = .branch cond label) ∨ i = .branchLink label := by
  cases i with
  | branch cond label' => simp [Instruction.label?]
  | branchLink label' => simp [Instruction.label?]
  | _ => simp [Instruction.label?]

theorem Reachable.execute_eq_error_iff {m : Machine s} (h : m.Reachable) {i : Instruction}
    {e : Error} :
    m.execute i = .error e ↔
      ∃ label, m.LabelMissing i label ∧ e = .validation (.labelUndefined label) := by
  have htarget : m.execute i = .error e ↔ m.target i = .error e := by
    rw [execute]
    cases m.target i <;> simp [Except.map]
  simp only [htarget, target_eq_error_iff, LabelMissing, label?_eq_some_iff,
    h.consistent.index?_eq_none_iff]

theorem step_eq_error_iff {m : Machine s} {e : Error} :
    m.step = .error e ↔
      ∃ entry, m.program.get? m.pc = some entry ∧ m.execute entry.instruction = .error e := by
  unfold step
  cases hg : m.program.get? m.pc with
  | none => simp
  | some entry => cases hx : m.execute entry.instruction <;> simp [hx, Except.map]

/-- In place, an instruction fails exactly when it does, and leaves all as it was. -/
theorem execute_embed_eq_error_iff {m : Machine s} {i : Instruction} {e : Error}
    {h : Host.State} :
    (Host.embed m).execute i = some (.error e, h) ↔ m.execute i = .error e ∧ h = Host.embed m := by
  rw [Host.execute_embed]
  cases m.execute i <;> simp [eq_comm]

theorem step_embed_eq_error_iff {m : Machine s} {e : Error} {h : Host.State} :
    (Host.embed m).step = some (.error e, h) ↔ m.step = .error e ∧ h = Host.embed m := by
  rw [Host.step_embed]
  cases m.step with
  | error e' => simp [eq_comm]
  | ok next => cases next <;> simp

/-- A run fails in front of the instruction that fails, after steps that all succeeded. -/
theorem exists_steps_of_run_eq_failed {m m' : Machine s} {fuel : ℕ} {e : Error}
    (h : m.run fuel = .failed m' e) : (∃ k < fuel, Steps k m m') ∧ m'.step = .error e := by
  obtain ⟨k, m₁, hk, hsteps, hstops⟩ := exists_steps_of_run h nofun
  cases hstops with
  | failed hs => exact ⟨⟨k, hk, hsteps⟩, hs⟩

/-- Failures change nothing. An instruction and a step fail exactly where a branch names a label that
no entry bears, and then a machine that is changed in place is as it was before. A run that fails has
made successful steps up to such a failure, and leaves the machine there; run again it fails at once
and in the same way. -/
theorem failures_change_nothing {m : Machine s} (hm : m.Reachable) :
    (∀ i e, m.execute i = .error e ↔
      ∃ label, m.LabelMissing i label ∧ e = .validation (.labelUndefined label)) ∧
    (∀ e, m.step = .error e ↔ ∃ entry label, m.program.get? m.pc = some entry ∧
      m.LabelMissing entry.instruction label ∧ e = .validation (.labelUndefined label)) ∧
    (∀ i e h, (Host.embed m).execute i = some (.error e, h) ↔
      m.execute i = .error e ∧ h = Host.embed m) ∧
    (∀ e h, (Host.embed m).step = some (.error e, h) ↔ m.step = .error e ∧ h = Host.embed m) ∧
    ∀ fuel m' e, m.run fuel = .failed m' e →
      (Host.embed m).run fuel = some (some (.error e), Host.embed m') ∧
      (∃ k < fuel, Steps k m m') ∧ m'.step = .error e ∧
      ∀ more, m'.run (more + 1) = .failed m' e ∧
        (Host.embed m').run (more + 1) = some (some (.error e), Host.embed m') := by
  refine ⟨fun i e => hm.execute_eq_error_iff, ?_, fun i e h => execute_embed_eq_error_iff,
    fun e h => step_embed_eq_error_iff, ?_⟩
  · intro e
    rw [step_eq_error_iff]
    simp only [hm.execute_eq_error_iff, exists_and_left]
  · intro fuel m' e h
    obtain ⟨hsteps, hs⟩ := exists_steps_of_run_eq_failed h
    refine ⟨?_, hsteps, hs, ?_⟩
    · rw [Host.run_embed, h]
    · intro more
      have hagain : m'.run (more + 1) = .failed m' e := (Stops.failed hs).run_eq more
      refine ⟨hagain, ?_⟩
      rw [Host.run_embed, hagain]

/-- A machine that calls a routine which is nowhere, after an instruction that can be executed. -/
def stranded : Machine (.architectural .w16) :=
  (new _).afterAll [.assemble " MOVS R0, #5", .assemble " BL nowhere", .assemble "here NOP"]

theorem failures_change_nothing_stranded : stranded.Reachable ∧
    stranded.execute (.branch .eq "nowhere") = .error (.validation (.labelUndefined "nowhere")) ∧
    (Host.embed stranded).execute (.branch .eq "nowhere") =
      some (.error (.validation (.labelUndefined "nowhere")), Host.embed stranded) ∧
    ∃ m', stranded.run 5 = .failed m' (.validation (.labelUndefined "nowhere")) ∧
      m'.registers.get .r0 = 5 ∧ m'.registers.get .lr = 0 ∧
      m'.run 9 = .failed m' (.validation (.labelUndefined "nowhere")) := by
  have h : stranded.Reachable := Reachable.new.afterAll _
  obtain ⟨hexecute, -, hplace, -, hruns⟩ := failures_change_nothing h
  have hnone : stranded.program.index? "nowhere" = none := by decide +kernel
  have hmissing : stranded.LabelMissing (.branch .eq "nowhere") "nowhere" :=
    ⟨.inl ⟨_, rfl⟩, h.consistent.index?_eq_none_iff.mp hnone⟩
  have hfails := (hexecute _ _).mpr ⟨_, hmissing, rfl⟩
  have hfirst : stranded.step = .ok (some (stranded.after .step)) := by decide +kernel
  have hlast : (stranded.after .step).step = .error (.validation (.labelUndefined "nowhere")) := by
    decide +kernel
  have hrun : stranded.run 5 =
      .failed (stranded.after .step) (.validation (.labelUndefined "nowhere")) :=
    ((Steps.cons hfirst (.refl _)).run_eq 4).trans ((Stops.failed hlast).run_eq 3)
  obtain ⟨-, -, -, hagain⟩ := hruns _ _ _ hrun
  exact ⟨h, hfails, (hplace _ _ _).mpr ⟨hfails, rfl⟩, _, hrun, by decide +kernel, by decide +kernel,
    (hagain 8).1⟩

end Machine
end Thumb
