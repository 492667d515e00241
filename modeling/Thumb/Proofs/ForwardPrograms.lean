import Thumb.Proofs.ProgramCounter
import Thumb.Proofs.Traces

/-! Programs in which control only moves forward. Every step brings `PC` closer to the end, so that a
run comes there after executing no more instructions than are left, whatever the registers hold. -/
namespace Thumb
namespace Program

/-- No instruction goes where a register says or is written to `PC`, and the labels that branches name
are borne by later entries. -/
structure Forward (p : Program) : Prop where
  not_computed : ∀ i e, p.get? i = some e → e.instruction.mnemonic ≠ .bx ∧
    e.instruction.mnemonic ≠ .blx ∧ e.instruction.destination? ≠ some .pc
  later : ∀ i e label, p.get? i = some e → e.instruction.label? = some label →
    ∃ j e', i < j ∧ p.get? j = some e' ∧ e'.label = some label

/-- Entries are found below the size only, so that there are finitely many to look at. -/
instance (p : Program) : Decidable p.Forward :=
  decidable_of_iff (∀ i < p.size, ∀ e ∈ p.get? i, (e.instruction.mnemonic ≠ .bx ∧
      e.instruction.mnemonic ≠ .blx ∧ e.instruction.destination? ≠ some .pc) ∧
      ∀ label ∈ e.instruction.label?, ∃ j < p.size, i < j ∧ ∃ e' ∈ p.get? j, e'.label = some label) <| by
    constructor
    · intro h
      constructor
      · intro i e he
        exact (h i (lt_size_of_get? he) e he).1
      · intro i e label he hl
        obtain ⟨j, -, hij, e', he', hl'⟩ := (h i (lt_size_of_get? he) e he).2 label hl
        exact ⟨j, e', hij, he', hl'⟩
    · intro h i _ e he
      refine ⟨h.not_computed i e he, ?_⟩
      intro label hl
      obtain ⟨j, e', hij, he', hl'⟩ := h.later i e label he hl
      exact ⟨j, lt_size_of_get? he', hij, e', he', hl'⟩

theorem exists_get?_of_lt {p : Program} {i : ℕ} (h : i < p.size) : ∃ e, p.get? i = some e := by
  rw [← Option.ne_none_iff_exists', ne_eq, get?_eq_none_iff]
  omega

end Program

namespace Machine

variable {s : Shape} {m : Machine s}

/-- A step fails only for want of a label. -/
theorem exists_step_of_label {e : Entry} (he : m.program.get? m.pc = some e)
    (hl : ∀ label, e.instruction.label? = some label → m.program.index? label ≠ none) :
    ∃ m', m.step = .ok (some m') := by
  cases ht : m.target e.instruction with
  | ok target => exact ⟨_, step_eq_of_target he ht⟩
  | error err =>
    obtain ⟨label, ⟨hlabel, hnone⟩, -⟩ := target_eq_error_iff.mp ht
    exact absurd hnone (hl label hlabel)

/-- In front of the end there is a step, and it comes closer to the end and not past it. -/
theorem exists_step_of_forward (hc : m.program.Consistent s.registerCount) (hf : m.program.Forward)
    (hsize : m.program.size < 2 ^ s.bits) (hpc : m.pc < m.program.size) :
    ∃ m', m.step = .ok (some m') ∧ m.pc < m'.pc ∧ m'.pc ≤ m.program.size := by
  obtain ⟨e, he⟩ := Program.exists_get?_of_lt hpc
  obtain ⟨m', hs⟩ : ∃ m', m.step = .ok (some m') := by
    refine exists_step_of_label he ?_
    intro label hl hnone
    obtain ⟨j, e', -, he', hl'⟩ := hf.later m.pc e label he hl
    exact hc.index?_eq_none_iff.mp hnone j e' he' hl'
  have hcounts := (counts_of_consistent hc he hs).exact he hsize
  refine ⟨m', hs, ?_⟩
  by_cases hjumps : e.instruction.Jumps m.registers.flags
  · obtain ⟨hbx, hblx, hrd⟩ := hf.not_computed m.pc e he
    obtain ⟨label, htaken⟩ : ∃ label, e.instruction.takenLabel? m.registers.flags = some label := by
      rcases hjumps with htaken | h | h | h
      · exact Option.isSome_iff_exists.mp htaken
      · exact absurd h hbx
      · exact absurd h hblx
      · exact absurd h hrd
    obtain ⟨j, e', hlater, he', hl'⟩ :=
      hf.later m.pc e label he (Instruction.label?_eq_of_taken htaken)
    have hj : m'.pc = j := hcounts.taken label j e' htaken he' hl'
    have hlt := Program.lt_size_of_get? he'
    omega
  · have hnext : m'.pc = m.pc + 1 := hcounts.next hjumps
    omega

/-- The steps to the end, by induction on how far it is. -/
theorem exists_steps_of_forward {p : Program} (hc : p.Consistent s.registerCount) (hf : p.Forward)
    (hsize : p.size < 2 ^ s.bits) (n : ℕ) (hp : m.program = p) (hn : p.size - m.pc ≤ n)
    (hpc : m.pc ≤ p.size) :
    ∃ k ≤ p.size - m.pc, ∃ m', Steps k m m' ∧ m'.program = p ∧ m'.pc = p.size := by
  induction n generalizing m with
  | zero => exact ⟨0, Nat.zero_le _, m, .refl m, hp, by omega⟩
  | succ n ih =>
    rcases Nat.eq_or_lt_of_le hpc with hend | hlt
    · exact ⟨0, Nat.zero_le _, m, .refl m, hp, hend⟩
    · subst hp
      obtain ⟨m₁, hs, hcloser, hle⟩ := exists_step_of_forward hc hf hsize hlt
      obtain ⟨k, hk, m', hsteps, hp', hend⟩ := ih (program_step hs) (by omega) hle
      exact ⟨k + 1, by omega, m', .cons hs hsteps, hp', hend⟩

/-- A program in which control only moves forward comes to an end. Loaded and shorter than there are
words, it halts from every state of the registers, after executing at most as many instructions as
are left; `PC` is then at its end, unless it was past the end already, and then nothing has
changed. -/
theorem forward_run_halts {m₀ : Machine s} (h : m₀.Reachable) (hp : m.program = m₀.program)
    (hf : m.program.Forward) (hsize : m.program.size < 2 ^ s.bits) :
    ∃ k m', k ≤ m.program.size - m.pc ∧ (∀ fuel, k < fuel → m.run fuel = .halted m') ∧
      m'.executed = m.executed + k ∧ (m.pc ≤ m.program.size → m'.pc = m.program.size) ∧
      (m.program.size ≤ m.pc → m' = m) := by
  have hc : m.program.Consistent s.registerCount := hp ▸ h.consistent
  obtain ⟨k, m', hk, hsteps, hstop, hend, hpast⟩ : ∃ k m', k ≤ m.program.size - m.pc ∧
      Steps k m m' ∧ m'.step = .ok none ∧ (m.pc ≤ m.program.size → m'.pc = m.program.size) ∧
      (m.program.size ≤ m.pc → m' = m) := by
    rcases Nat.le_total m.program.size m.pc with hle | hle
    · exact ⟨0, m, Nat.zero_le _, .refl m, (step_eq_none_iff m).mpr hle,
        fun hge => Nat.le_antisymm hge hle, fun _ => rfl⟩
    · obtain ⟨k, hk, m', hsteps, hp', hend⟩ :=
        exists_steps_of_forward hc hf hsize _ rfl le_rfl hle
      refine ⟨k, m', hk, hsteps, (step_eq_none_iff m').mpr (by rw [hp', hend]), fun _ => hend, ?_⟩
      intro hge
      obtain rfl : k = 0 := by omega
      cases hsteps
      rfl
  refine ⟨k, m', hk, ?_, hsteps.executed_eq, hend, hpast⟩
  intro fuel hfuel
  obtain ⟨n, rfl⟩ := Nat.exists_eq_add_of_lt hfuel
  rw [Nat.add_assoc, hsteps.run_eq]
  exact (Stops.halted hstop).run_eq n

/-- A branch and a call over what comes next, and every jump forward. -/
def skipping : Machine (.architectural .w16) :=
  (new _).feed [" CMP R0, #5", " BNE done", " BL part", " MOVS R1, #9", "part ADDS R1, R1, #1",
    "done MSR MSP, R1"]

/-- The same in front of the branch, with flags for which it is not taken. -/
def skippingOn : Machine (.architectural .w16) :=
  { skipping with registers := (skipping.registers.set .pc 1).setFlags ⟨true, true, false, true⟩ }

/-- From the start the branch is taken, and nothing is called or added. In front of the branch, with
the other flags, the call is made, and the nine behind it is never loaded. -/
theorem forward_run_halts_skipping : skipping.Reachable ∧ skippingOn.program = skipping.program ∧
    skipping.program.Forward ∧ skipping.program.size < 2 ^ 16 ∧
    (∃ m', skipping.run 4 = .halted m' ∧ m'.executed = 3 ∧ m'.pc = 6 ∧
      m'.registers.get .lr = 0 ∧ m'.registers.get .r1 = 0) ∧
    ∃ m', skippingOn.run 5 = .halted m' ∧ m'.executed = 4 ∧ m'.pc = 6 ∧
      m'.registers.get .lr = 3 ∧ m'.registers.get .r1 = 1 := by
  have h : skipping.Reachable := Reachable.new.afterAll _
  have hp : skippingOn.program = skipping.program := rfl
  obtain ⟨hf, hsix, hpc, hzero, hpcOn, hzeroOn, hleft, hleftOn⟩ : skipping.program.Forward ∧
      skipping.program.size = 6 ∧ skipping.pc = 0 ∧ skipping.executed = 0 ∧ skippingOn.pc = 1 ∧
      skippingOn.executed = 0 ∧
      (skipping.run 7).final?.map (fun m =>
        (m.executed, m.registers.get .lr, m.registers.get .r1)) = some (3, 0, 0) ∧
      (skippingOn.run 6).final?.map (fun m =>
        (m.executed, m.registers.get .lr, m.registers.get .r1)) = some (4, 3, 1) := by
    decide +kernel
  have hsize : skipping.program.size < 2 ^ 16 := by rw [hsix]; decide
  refine ⟨h, hp, hf, hsize, ?_, ?_⟩
  · obtain ⟨k, m', hk, hrun, hcount, hend, -⟩ := forward_run_halts h rfl hf hsize
    rw [hsix, hpc] at hk hend
    rw [hzero, Nat.zero_add] at hcount
    rw [hrun 7 (by omega)] at hleft
    simp only [Run.final?, Option.map_some, Option.some.injEq, Prod.mk.injEq] at hleft
    obtain ⟨hthree, hlr, hr1⟩ := hleft
    exact ⟨m', hrun 4 (by omega), hthree, hend (by decide), hlr, hr1⟩
  · have hfOn : skippingOn.program.Forward := by rwa [hp]
    have hsizeOn : skippingOn.program.size < 2 ^ 16 := by rwa [hp]
    obtain ⟨k, m', hk, hrun, hcount, hend, -⟩ := forward_run_halts h hp hfOn hsizeOn
    rw [hp, hsix, hpcOn] at hk hend
    rw [hzeroOn, Nat.zero_add] at hcount
    rw [hrun 6 (by omega)] at hleftOn
    simp only [Run.final?, Option.map_some, Option.some.injEq, Prod.mk.injEq] at hleftOn
    obtain ⟨hfour, hlr, hr1⟩ := hleftOn
    exact ⟨m', hrun 5 (by omega), hfour, hend (by decide), hlr, hr1⟩

end Machine
end Thumb
