import Thumb.Machine

/-! Runs as sequences of steps. A run that comes to an end has made some number of successful steps,
to a machine that has nothing to execute or whose next step fails. -/
namespace Thumb
namespace Machine

variable {s : Shape}

/-- The second machine is what a number of successful steps make of the first. -/
inductive Steps : Nat → Machine s → Machine s → Prop
  | refl (m : Machine s) : Steps 0 m m
  | cons {k : Nat} {m m₁ m' : Machine s} (h : m.step = .ok (some m₁)) (tail : Steps k m₁ m') :
    Steps (k + 1) m m'

/-- The machine can make no successful step, and a run ends there. -/
inductive Stops (m : Machine s) : Run s → Prop
  | halted (h : m.step = .ok none) : Stops m (.halted m)
  | failed {e : Error} (h : m.step = .error e) : Stops m (.failed m e)

/-- The run ends as given. A run that has used up its fuel has not ended. -/
def RunsTo (m : Machine s) (r : Run s) : Prop := ∃ k m', Steps k m m' ∧ m'.Stops r

theorem Stops.step_ne {m m' : Machine s} {r : Run s} (h : m.Stops r) : m.step ≠ .ok (some m') := by
  cases h with
  | halted h => rw [h]; exact nofun
  | failed h => rw [h]; exact nofun

/-- A run that has fuel left at a machine that stops ends there. -/
theorem Stops.run_eq {m : Machine s} {r : Run s} (h : m.Stops r) (fuel : Nat) :
    m.run (fuel + 1) = r := by
  cases h with
  | halted h => rw [run, h]
  | failed h => rw [run, h]

/-- The steps a run makes use up its fuel one by one. -/
theorem Steps.run_eq {k : Nat} {m m' : Machine s} (h : Steps k m m') (fuel : Nat) :
    m.run (k + fuel) = m'.run fuel := by
  induction h with
  | refl => rw [Nat.zero_add]
  | cons hs _ ih =>
    rw [Nat.succ_add, run, hs]
    exact ih

/-- A run that ends with the fuel it was given has made fewer steps than that, to a machine that
stops. -/
theorem exists_steps_of_run {fuel : Nat} {m : Machine s} {r : Run s} (h : m.run fuel = r)
    (hr : ∀ m', r ≠ .exhausted m') : ∃ k m', k < fuel ∧ Steps k m m' ∧ m'.Stops r := by
  induction fuel generalizing m with
  | zero => exact absurd h.symm (hr m)
  | succ fuel ih =>
    rw [run] at h
    cases hs : m.step with
    | error e =>
      rw [hs] at h
      exact ⟨0, m, Nat.succ_pos fuel, .refl m, h ▸ .failed hs⟩
    | ok next =>
      cases next with
      | none =>
        rw [hs] at h
        exact ⟨0, m, Nat.succ_pos fuel, .refl m, h ▸ .halted hs⟩
      | some m₁ =>
        rw [hs] at h
        obtain ⟨k, m', hk, hsteps, hstops⟩ := ih h
        exact ⟨k + 1, m', Nat.succ_lt_succ hk, .cons hs hsteps, hstops⟩

/-- A run ends as given exactly when some amount of fuel brings it there. -/
theorem runsTo_iff {m : Machine s} {r : Run s} :
    m.RunsTo r ↔ (∀ m', r ≠ .exhausted m') ∧ ∃ fuel, m.run fuel = r := by
  constructor
  · rintro ⟨k, m', hsteps, hstops⟩
    refine ⟨?_, k + 1, ?_⟩
    · cases hstops with
      | halted => exact nofun
      | failed => exact nofun
    · rw [hsteps.run_eq, ← Nat.zero_add 1]
      exact hstops.run_eq 0
  · rintro ⟨hr, fuel, h⟩
    obtain ⟨k, m', -, hsteps, hstops⟩ := exists_steps_of_run h hr
    exact ⟨k, m', hsteps, hstops⟩

/-- After any of its steps a run goes on to the same end. -/
theorem Steps.runsTo_iff {k : Nat} {m m' : Machine s} (h : Steps k m m') {r : Run s} :
    m'.RunsTo r ↔ m.RunsTo r := by
  induction h with
  | refl => exact Iff.rfl
  | @cons k m m₁ m' hs _ ih =>
    rw [ih]
    constructor
    · rintro ⟨j, m₂, hsteps, hstops⟩
      exact ⟨j + 1, m₂, .cons hs hsteps, hstops⟩
    · rintro ⟨_, m₂, hsteps, hstops⟩
      cases hsteps with
      | refl => exact absurd hs hstops.step_ne
      | cons hs' tail =>
        cases hs.symm.trans hs'
        exact ⟨_, m₂, tail, hstops⟩

end Machine
end Thumb
