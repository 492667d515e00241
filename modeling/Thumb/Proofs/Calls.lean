import Thumb.Proofs.ProgramCounter
import Thumb.Proofs.Traces

/-! Calls and returns. A branch with link goes where it says and leaves the index of the following
instruction in `LR`. Whatever is executed from there, `BX LR` comes back as long as none of it writes
`LR`. -/
namespace Thumb

variable {s : Shape}

def Instruction.WritesLink (i : Instruction) : Prop :=
  i.mnemonic = .bl ∨ i.mnemonic = .blx ∨ i.destination? = some .lr

instance (i : Instruction) : Decidable i.WritesLink :=
  inferInstanceAs (Decidable (i.mnemonic = .bl ∨ i.mnemonic = .blx ∨ i.destination? = some .lr))

theorem Instruction.Touches.writesLink {i : Instruction} (h : i.Touches (Register.lr.location s)) :
    i.WritesLink := by
  obtain ⟨r, hr, hcases⟩ := exists_register h
  obtain rfl : Register.lr = r := Shape.slot_inj.mp hr
  rcases hcases with hpc | hd | ⟨-, hbl | hblx⟩ | ⟨hsp, -⟩
  · cases hpc
  · exact .inr (.inr hd)
  · exact .inl hbl
  · exact .inr (.inl hblx)
  · cases hsp

namespace Machine

variable {m : Machine s} {e : Entry}

/-- The instruction is a call that goes to `n`: the index of its label, reduced as `PC` is, or what its
register holds. -/
inductive Calls (m : Machine s) : Instruction → ℕ → Prop
  | label {label : String} {j : ℕ} (h : m.program.index? label = some j) :
    Calls m (.branchLink label) (j % 2 ^ s.bits)
  | register (rm : Register) : Calls m (.branchLinkExchange rm) (m.registers.get rm).toNat

/-- A call reads where it goes before it writes `LR`. -/
theorem exists_step_of_calls {n : ℕ} (he : m.program.get? m.pc = some e)
    (hc : m.Calls e.instruction n) : ∃ m₁, m.step = .ok (some m₁) ∧ m₁.pc = n ∧
      (m₁.registers.get .lr).toNat = (m.pc + 1) % 2 ^ s.bits := by
  have hlink : e.instruction.mnemonic = .bl ∨ e.instruction.mnemonic = .blx := by
    generalize e.instruction = i at hc
    cases hc with
    | label => exact .inl rfl
    | register => exact .inr rfl
  obtain ⟨target, ht, hgoes⟩ : ∃ target, m.target e.instruction = .ok target ∧
      ((m.registers.perform target e.instruction).get .pc).toNat = n := by
    generalize e.instruction = i at hc
    cases hc with
    | @label label j h =>
      refine ⟨j, by simp [target, Instruction.label?, h], ?_⟩
      rw [RegisterFile.get_pc_perform]
      exact BitVec.toNat_ofNat _ _
    | register rm =>
      refine ⟨0, rfl, ?_⟩
      rw [RegisterFile.get_pc_perform]
      rfl
  refine ⟨_, step_eq_of_target he ht, hgoes, ?_⟩
  change ((m.registers.perform target e.instruction).get .lr).toNat = _
  rw [RegisterFile.get_lr_perform _ _ hlink]
  exact m.registers.toNat_following

/-- `BX LR` goes where `LR` says and leaves it. -/
theorem exists_step_of_return (he : m.program.get? m.pc = some e)
    (hi : e.instruction = .branchExchange .lr) : ∃ m', m.step = .ok (some m') ∧
      m'.registers.get .pc = m.registers.get .lr ∧
      m'.registers.get .lr = m.registers.get .lr := by
  have ht : m.target e.instruction = .ok 0 := by
    rw [hi]
    rfl
  refine ⟨_, step_eq_of_target he ht, ?_, ?_⟩
  · change (m.registers.perform 0 e.instruction).get .pc = _
    rw [hi, RegisterFile.get_pc_perform]
    rfl
  · change (m.registers.perform 0 e.instruction).get .lr = _
    rw [hi, RegisterFile.get_perform_of_ne (by decide)]
    rfl

/-- Calls return. A branch with link to a label that is defined, or by a register, goes where the label
or the register said before; and after any instructions that do not write `LR`, `BX LR` goes to the
instruction that follows the call, the index of which is still in `LR`. -/
theorem call_returns {n : ℕ} (he : m.program.get? m.pc = some e) (hc : m.Calls e.instruction n) :
    ∃ m₁, m.step = .ok (some m₁) ∧ m₁.pc = n ∧
      ∀ is m', Executes is m₁ m' → (∀ i ∈ is, ¬i.WritesLink) →
        (m'.registers.get .lr).toNat = (m.pc + 1) % 2 ^ s.bits ∧
        ∀ e', m'.program.get? m'.pc = some e' → e'.instruction = .branchExchange .lr →
          ∃ m₂, m'.step = .ok (some m₂) ∧ m₂.pc = (m.pc + 1) % 2 ^ s.bits ∧
            (m₂.registers.get .lr).toNat = (m.pc + 1) % 2 ^ s.bits := by
  obtain ⟨m₁, hs, hgoes, hlr⟩ := exists_step_of_calls he hc
  refine ⟨m₁, hs, hgoes, ?_⟩
  intro is m' hexec hkeep
  have hkept : m'.registers.get .lr = m₁.registers.get .lr :=
    hexec.load_eq (l := Register.lr.location s) fun i hi htouch => hkeep i hi htouch.writesLink
  rw [← hkept] at hlr
  refine ⟨hlr, ?_⟩
  intro e' he' hi
  obtain ⟨m₂, hs₂, hpc, hlr₂⟩ := exists_step_of_return he' hi
  refine ⟨m₂, hs₂, ?_, by rw [hlr₂, hlr]⟩
  rw [pc, hpc, hlr]

/-- A machine of sixteen bits about to call the routine that `LR` points to, which counts `R0` down and
moves `SP`. -/
def calling : Machine (.architectural .w16) :=
  (new _).afterAll [.assemble " NOP", .assemble " BLX LR", .assemble " NOP",
    .assemble "routine SUBS R0, R0, #1", .assemble " MSR MSP, R0", .assemble " BNE routine",
    .assemble " BX LR", .edit (.named "R0" 2), .edit (.named "LR" 3), .edit (.named "PC" 1)]

def callingRound : List Instruction :=
  [.arith .sub .r0 .r0 (.immediate 1), .writeSpecial .msp .r0, .branch .ne "routine"]

theorem call_returns_calling : ∃ e m₁ m' m₂, calling.program.get? calling.pc = some e ∧
    calling.Calls e.instruction 3 ∧ calling.step = .ok (some m₁) ∧ m₁.pc = 3 ∧
    Executes (callingRound ++ callingRound) m₁ m' ∧ (m'.registers.get .lr).toNat = 2 ∧
    m'.step = .ok (some m₂) ∧ m₂.pc = 2 := by
  have hkeep : ∀ i ∈ callingRound ++ callingRound, ¬i.WritesLink := by decide
  obtain ⟨he, hpc, hlr, hcall, hbody, hlast⟩ : calling.program.get? calling.pc =
        some ⟨" BLX LR", none, .blx, .branchLinkExchange .lr⟩ ∧
      calling.pc = 1 ∧ (calling.registers.get .lr).toNat = 3 ∧
      calling.step = .ok (some (calling.after .step)) ∧
      (calling.after .step).trace 6 = some (callingRound ++ callingRound,
        (calling.after .step).afterAll (List.replicate 6 .step)) ∧
      ((calling.after .step).afterAll (List.replicate 6 .step)).program.get?
        ((calling.after .step).afterAll (List.replicate 6 .step)).pc =
        some ⟨" BX LR", none, .bx, .branchExchange .lr⟩ := by decide +kernel
  have hc : calling.Calls (.branchLinkExchange .lr) 3 := hlr ▸ .register .lr
  obtain ⟨m₁, hs, hgoes, hreturns⟩ := call_returns he hc
  obtain rfl : m₁ = calling.after .step := by simpa [hcall, eq_comm] using hs
  obtain ⟨hkept, hback⟩ := hreturns _ _ (executes_of_trace hbody) hkeep
  obtain ⟨m₂, hs₂, hpc₂, -⟩ := hback _ hlast rfl
  rw [hpc] at hpc₂ hkept
  exact ⟨_, _, _, m₂, he, hc, hcall, hgoes, executes_of_trace hbody, hkept, hs₂, hpc₂⟩

end Machine
end Thumb
