import Thumb.Proofs.Host.Histories
import Thumb.Proofs.ProgramLabels
import Thumb.Proofs.Traces

/-! The life of a machine. Whatever calls are made, the stage of life tells what has become of them:
whether some line has been accepted, and whether some step has executed an instruction. The stage
never goes back, for nothing takes a line away and a step needs a line to execute. -/
namespace Thumb

/-- What a call can do to the stage of life. -/
inductive Stage.Moves : Stage → Stage → Prop
  | stay (stage : Stage) : Moves stage stage
  | load : Moves empty loaded
  | start : Moves loaded ran

namespace Machine

variable {s : Shape}

inductive Accepts (m : Machine s) : Call s → Prop
  | assemble {line : String} {m' : Machine s} (h : m.assemble line = .ok m') :
    Accepts m (.assemble line)

/-- A step executes an instruction in the call: the call is such a step, or a run that comes to an
end, by a failure or not, and makes such a step on the way. An instruction handed to the machine is
not of its program and does not count. -/
inductive Advances (m : Machine s) : Call s → Prop
  | step {m' : Machine s} (h : m.step = .ok (some m')) : Advances m .step
  | run {fuel k : ℕ} {m₁ m₂ m' : Machine s} (hend : (m.run fuel).final? = some m')
    (hs : Steps k m m₁) (h : m₁.step = .ok (some m₂)) : Advances m (.run fuel)

/-- One of the calls, made on the machine that those before it leave, is as described. -/
def Sometime (P : Machine s → Call s → Prop) (m : Machine s) (calls : List (Call s)) : Prop :=
  ∃ before call rest, calls = before ++ call :: rest ∧ P (m.afterAll before) call

section Histories

variable {P : Machine s → Call s → Prop} (m : Machine s) (call : Call s) (calls : List (Call s))

theorem sometime_cons : Sometime P m (call :: calls) ↔ P m call ∨ Sometime P (m.after call) calls := by
  constructor
  · rintro ⟨before, call', rest, h, hP⟩
    cases before with
    | nil =>
      cases h
      exact .inl hP
    | cons first before =>
      cases h
      exact .inr ⟨before, call', rest, rfl, hP⟩
  · rintro (hP | ⟨before, call', rest, rfl, hP⟩)
    · exact ⟨[], call, calls, rfl, hP⟩
    · exact ⟨call :: before, call', rest, rfl, hP⟩

/-- What holds after a call exactly if it held before or the call is as described, holds after a
history exactly if it held before or one of the calls is. -/
theorem afterAll_iff_sometime {Q : Machine s → Prop}
    (hcall : ∀ m call, Q (m.after call) ↔ Q m ∨ P m call) :
    Q (m.afterAll calls) ↔ Q m ∨ Sometime P m calls := by
  induction calls generalizing m with
  | nil => simp [Sometime]
  | cons call calls ih => rw [afterAll_cons, ih, hcall, sometime_cons, or_assoc]

end Histories

section Calls

variable {m m' : Machine s} {call : Call s}

theorem Steps.exists_step {k : ℕ} {m₁ m₂ : Machine s} (h : Steps k m m₁)
    (hs : m₁.step = .ok (some m₂)) : ∃ m', m.step = .ok (some m') := by
  cases h with
  | refl => exact ⟨m₂, hs⟩
  | cons hfirst => exact ⟨_, hfirst⟩

theorem Advances.exists_step (h : m.Advances call) : ∃ m', m.step = .ok (some m') := by
  cases h with
  | step hs => exact ⟨_, hs⟩
  | run _ hsteps hs => exact hsteps.exists_step hs

theorem size_pos_of_step (h : m.step = .ok (some m')) : 0 < m.program.size := by
  obtain ⟨e, -, he, -⟩ := eq_of_step h
  exact Nat.zero_lt_of_lt (Program.lt_size_of_get? he)

/-- A run leaves the machine at which its steps stop. -/
theorem exists_steps_of_final? {fuel : ℕ} (h : (m.run fuel).final? = some m') :
    ∃ k r, Steps k m m' ∧ m'.Stops r := by
  have hne : ∀ m₁, m.run fuel ≠ .exhausted m₁ := by
    intro m₁ hr
    rw [hr] at h
    cases h
  obtain ⟨k, m₁, -, hsteps, hstops⟩ := exists_steps_of_run rfl hne
  have hfinal : m₁ = m' := by
    generalize m.run fuel = r at h hstops
    cases hstops <;> exact Option.some.inj h
  exact ⟨k, _, hfinal ▸ hsteps, hfinal ▸ hstops⟩

theorem executed_after_eq (h : ¬m.Advances call) : (m.after call).executed = m.executed := by
  cases call with
  | assemble line =>
    cases hline : m.assemble line with
    | error e => simp [after, hline, Except.toOption]
    | ok m' =>
      obtain ⟨-, -, -, hm'⟩ := append_of_assemble hline
      simpa [after, hline, Except.toOption] using congrArg executed hm'
  | execute i =>
    cases hi : m.execute i with
    | error e => simp [after, hi, Except.toOption]
    | ok m' =>
      obtain ⟨target, -, rfl⟩ := eq_of_execute hi
      simp [after, hi, Except.toOption]
  | edit e => rfl
  | step =>
    cases hs : m.step with
    | error e => simp [after, hs, Except.toOption]
    | ok next =>
      cases next with
      | none => simp [after, hs, Except.toOption]
      | some m' => exact absurd (.step hs) h
  | run fuel =>
    cases hend : (m.run fuel).final? with
    | none => simp [after, hend]
    | some m' =>
      -- A run that has ended without a first step has left the machine it found.
      obtain ⟨k, r, hsteps, -⟩ := exists_steps_of_final? hend
      cases hsteps with
      | refl => simp [after, hend]
      | cons hs => exact absurd (.run hend (.refl m) hs) h

/-- A step that executes an instruction in a call counts, though the call may fail later. -/
theorem executed_after_lt (h : m.Advances call) : m.executed < (m.after call).executed := by
  obtain ⟨m₁, hfirst⟩ := h.exists_step
  cases h with
  | step hs => simp [after, hs, Except.toOption, executed_step hs]
  | @run fuel _ _ _ m' hend =>
    obtain ⟨k, r, hsteps, hstops⟩ := exists_steps_of_final? hend
    cases hsteps with
    | refl => exact absurd hfirst hstops.step_ne
    | cons hs htail =>
      have hcount := (Steps.cons hs htail).executed_eq
      simp [after, hend, hcount]

/-- Instructions have been executed if some had been before or a step of the call executes one. -/
theorem executed_after_pos_iff (m : Machine s) (call : Call s) :
    0 < (m.after call).executed ↔ 0 < m.executed ∨ m.Advances call := by
  by_cases h : m.Advances call
  · exact iff_of_true (Nat.zero_lt_of_lt (executed_after_lt h)) (.inr h)
  · rw [executed_after_eq h, or_iff_left h]

/-- There is a program if there was one before or a line has been accepted. -/
theorem size_after_pos_iff (m : Machine s) (call : Call s) :
    0 < (m.after call).program.size ↔ 0 < m.program.size ∨ m.Accepts call := by
  cases call with
  | assemble line =>
    cases h : m.assemble line with
    | error e =>
      have hno : ¬m.Accepts (.assemble line) := by
        rintro ⟨hok⟩
        simp [h] at hok
      simp [after, h, Except.toOption, hno]
    | ok m' =>
      obtain ⟨e, -, happend, -⟩ := append_of_assemble h
      have hsize : m'.program.size = m.program.size + 1 := by
        rw [Program.eq_push_of_append happend, Program.size_push]
      simp [after, h, Except.toOption, hsize, Accepts.assemble h]
  | step | run | execute | edit =>
    rw [program_after_of_line?_eq_none m rfl]
    refine (or_iff_left ?_).symm
    rintro ⟨⟩

/-- Nothing has been executed without a program, whatever calls have been made. -/
theorem size_pos_of_executed_pos (calls : List (Call s))
    (h : 0 < ((new s).afterAll calls).executed) : 0 < ((new s).afterAll calls).program.size := by
  have keep : ∀ (m : Machine s) (call : Call s), (0 < m.executed → 0 < m.program.size) →
      0 < (m.after call).executed → 0 < (m.after call).program.size := by
    intro m call hm hafter
    rw [size_after_pos_iff]
    rcases (executed_after_pos_iff m call).mp hafter with hbefore | hadvances
    · exact .inl (hm hbefore)
    · obtain ⟨m', hs⟩ := hadvances.exists_step
      exact .inl (size_pos_of_step hs)
  exact afterAll_induction keep (absurd · (lt_irrefl 0)) calls h

end Calls

section Stages

variable (m : Machine s)

theorem stage_eq_ran_iff : m.stage = .ran ↔ 0 < m.executed := by
  unfold stage
  split
  · next h => exact iff_of_true rfl h
  · next h => split <;> exact iff_of_false nofun h

theorem stage_eq_empty_iff : m.stage = .empty ↔ ¬0 < m.executed ∧ ¬0 < m.program.size := by
  unfold stage
  split
  · next h => simp [h]
  · next h => split <;> next hsize => simp [h, hsize, Nat.pos_iff_ne_zero]

theorem stage_eq_loaded_iff : m.stage = .loaded ↔ ¬0 < m.executed ∧ 0 < m.program.size := by
  unfold stage
  split
  · next h => simp [h]
  · next h => split <;> next hsize => simp [h, hsize, Nat.pos_iff_ne_zero]

/-- A call leaves the stage or takes the machine to the next. -/
theorem stage_moves (call : Call s) : m.stage.Moves (m.after call).stage := by
  have hexecuted := executed_after_pos_iff m call
  have hsize := size_after_pos_iff m call
  cases hm : m.stage with
  | ran =>
    rw [stage_eq_ran_iff] at hm
    rw [(stage_eq_ran_iff _).mpr (hexecuted.mpr (.inl hm))]
    exact .stay _
  | loaded =>
    obtain ⟨-, hprogram⟩ := m.stage_eq_loaded_iff.mp hm
    by_cases hran : 0 < (m.after call).executed
    · rw [(stage_eq_ran_iff _).mpr hran]
      exact .start
    · rw [(stage_eq_loaded_iff _).mpr ⟨hran, hsize.mpr (.inl hprogram)⟩]
      exact .stay _
  | empty =>
    obtain ⟨hnone, hprogram⟩ := m.stage_eq_empty_iff.mp hm
    have hran : ¬0 < (m.after call).executed := by
      rw [hexecuted]
      rintro (hbefore | hadvances)
      · exact hnone hbefore
      · obtain ⟨m', hs⟩ := hadvances.exists_step
        exact hprogram (size_pos_of_step hs)
    by_cases hloaded : 0 < (m.after call).program.size
    · rw [(stage_eq_loaded_iff _).mpr ⟨hran, hloaded⟩]
      exact .load
    · rw [(stage_eq_empty_iff _).mpr ⟨hran, hloaded⟩]
      exact .stay _

end Stages

/-- In place, a step says that there is nothing to execute exactly if `PC` is past the end of the
program, and leaves all as it was. -/
theorem step_embed_eq_false_iff {m : Machine s} {h : Host.State} :
    (Host.embed m).step = some (.ok false, h) ↔ m.program.size ≤ m.pc ∧ h = Host.embed m := by
  rw [Host.step_embed, ← step_eq_none_iff]
  cases m.step with
  | error e => simp
  | ok next => cases next <;> simp [eq_comm]

/-- The life of a machine. Whatever calls are made on a new one, it is empty as long as no line has
been accepted, and has run once a step has executed an instruction, also in a run that failed later;
in between it is loaded. Each call leaves the stage or takes it to the next. A step says that there
is nothing to execute, and then changes nothing, exactly where `PC` is past the end. -/
theorem life_cycle {c : Config} (hc : c.shape = .ok s) (calls : List (Call s)) :
    let m := (new s).afterAll calls
    (Host.State.new c).afterAll calls = some (Host.embed m) ∧
      (m.stage = .empty ↔ ¬Sometime Accepts (new s) calls) ∧
      (m.stage = .ran ↔ Sometime Advances (new s) calls) ∧
      (m.stage = .loaded ↔
        Sometime Accepts (new s) calls ∧ ¬Sometime Advances (new s) calls) ∧
      (∀ call, (Host.embed m).after call = some (Host.embed (m.after call)) ∧
        m.stage.Moves (m.after call).stage) ∧
      ∀ h, (Host.embed m).step = some (.ok false, h) ↔ m.program.size ≤ m.pc ∧ h = Host.embed m := by
  have hran : 0 < ((new s).afterAll calls).executed ↔ Sometime Advances (new s) calls := by
    rw [afterAll_iff_sometime (Q := fun m => 0 < m.executed) _ _ executed_after_pos_iff]
    exact or_iff_right (lt_irrefl 0)
  have hloaded : 0 < ((new s).afterAll calls).program.size ↔ Sometime Accepts (new s) calls := by
    rw [afterAll_iff_sometime (Q := fun m => 0 < m.program.size) _ _ size_after_pos_iff]
    exact or_iff_right (lt_irrefl 0)
  refine ⟨?_, ?_, ?_, ?_, ?_, ?_⟩
  · rw [Host.new_eq_embed hc, Host.afterAll_embed]
  · rw [stage_eq_empty_iff, ← hloaded]
    -- The count need not be looked at: it is zero as long as there is no program.
    exact and_iff_right_of_imp (mt (size_pos_of_executed_pos calls))
  · rw [stage_eq_ran_iff, hran]
  · rw [stage_eq_loaded_iff, ← hran, ← hloaded, and_comm]
  · intro call
    exact ⟨Host.after_embed _ call, stage_moves _ call⟩
  · intro h
    exact step_embed_eq_false_iff

/-- An instruction is executed without a program, and then a program runs up to a label it does not
have. -/
def stumbling : List (Call (.architectural .w16)) :=
  [.execute (.moveSet .r1 (.immediate 3)), .assemble " MOVS R0, #5", .assemble " BL nowhere",
    .edit (.named "PC" 0), .run 5]

theorem life_cycle_stumbling :
    Config.shape { bitWidth := 16 } = .ok (.architectural .w16) ∧
      ((new _).afterAll (stumbling.take 1)).stage = .empty ∧
      ((new _).afterAll (stumbling.take 4)).stage = .loaded ∧
      ((new _).afterAll stumbling).stage = .ran ∧
      ((new _).afterAll stumbling).step = .error (.validation (.labelUndefined "nowhere")) := by
  have hc : Config.shape { bitWidth := 16 } = .ok (.architectural .w16) := rfl
  obtain ⟨-, -, hran, -⟩ := life_cycle hc stumbling
  let m := (new (.architectural .w16)).afterAll (stumbling.take 4)
  have hend : (m.run 5).final? = some (m.after (.run 5)) := by decide +kernel
  have hstep : m.step = .ok (some (m.after .step)) := by decide +kernel
  refine ⟨hc, by decide +kernel, by decide +kernel, ?_, by decide +kernel⟩
  exact hran.mpr ⟨stumbling.take 4, .run 5, [], rfl, .run hend (.refl m) hstep⟩

end Machine
end Thumb
