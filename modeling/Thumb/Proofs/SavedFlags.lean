import Thumb.Proofs.Host.Histories
import Thumb.Proofs.Traces

/-! Flags kept in a register. `MRS` puts the status word into a register and `MSR` makes flags of it
again. Whatever is executed between the two, other flags and other special registers included, the
flags come back as long as none of it has that register as its destination. -/
namespace Thumb

variable {s : Shape}

/-- The registers below `SP` are changed by the instructions that have them as destination only. -/
theorem Instruction.Touches.destination?_eq {i : Instruction} {r : Register} (hr : r.index ≤ 12)
    (h : i.Touches (r.location s)) : i.destination? = some r := by
  obtain ⟨r', hloc, hcases⟩ := exists_register h
  obtain rfl : r = r' := Shape.slot_inj.mp hloc
  rcases hcases with rfl | hd | ⟨rfl, -⟩ | ⟨rfl, -⟩
  · exact absurd hr (by decide)
  · exact hd
  · exact absurd hr (by decide)
  · exact absurd hr (by decide)

theorem SpecialRegister.location_of_showsFlags {special : SpecialRegister}
    (h : special.showsFlags = true) : special.location s = .flags := by
  cases special <;> first | rfl | cases h

namespace RegisterFile

variable {special : SpecialRegister}

/-- What `MRS` puts into a register are the flags as they stand. -/
theorem get_perform_readSpecial (f : RegisterFile s) (target : ℕ) (rd : Register)
    (h : special.showsFlags = true) :
    (f.perform target (.readSpecial rd special)).get rd = f.flags.word s.bits := by
  have hload : f.load (special.location s) = f.flags.word s.bits := by
    rw [SpecialRegister.location_of_showsFlags h]
    rfl
  exact (get_perform_of_put rfl).trans hload

/-- What `MSR` does with a status word is to set the flags that it shows. -/
theorem perform_writeSpecial (f : RegisterFile s) (target : ℕ) {rn : Register} {flags : Flags}
    (h : special.showsFlags = true) (hn : f.get rn = flags.word s.bits) :
    f.perform target (.writeSpecial special rn) = (f.setFlags flags).set .pc f.following := by
  have hbits : 4 ≤ s.bits := le_trans (by decide) s.sixteen_le_bits
  have hstore : f.store (special.location s) (f.get rn) = f.setFlags flags := by
    rw [SpecialRegister.location_of_showsFlags h, store, hn, Flags.ofWord_word hbits]
    rfl
  rw [perform, effect, hstore]
  rfl

end RegisterFile

namespace Machine

/-- The machine executes an instruction: the one of its program at `PC`, or one that it is given. -/
inductive Performs (i : Instruction) (m m' : Machine s) : Prop
  | step {e : Entry} (he : m.program.get? m.pc = some e) (hi : e.instruction = i)
    (h : m.step = .ok (some m'))
  | given (h : m.execute i = .ok m')

inductive PerformsAll : List Instruction → Machine s → Machine s → Prop
  | nil (m : Machine s) : PerformsAll [] m m
  | cons {i : Instruction} {is : List Instruction} {m m₁ m' : Machine s} (h : Performs i m m₁)
    (tail : PerformsAll is m₁ m') : PerformsAll (i :: is) m m'

variable {m m' : Machine s} {i : Instruction} {is : List Instruction}

/-- Steps that succeed are among them. -/
theorem Executes.performsAll (h : Executes is m m') : PerformsAll is m m' := by
  induction h with
  | nil => exact .nil _
  | cons he hs _ ih => exact .cons (.step he rfl hs) ih

/-- Either way the registers are what the instruction makes of them, and the program stays. -/
theorem Performs.exists_target (h : Performs i m m') :
    ∃ target, m'.registers = m.registers.perform target i ∧ m'.program = m.program := by
  cases h with
  | @step e he hi hs =>
    obtain ⟨e', m₁, he', hx, rfl⟩ := eq_of_step hs
    cases he.symm.trans he'
    obtain ⟨target, -, rfl⟩ := eq_of_execute hx
    exact ⟨target, by rw [← hi], rfl⟩
  | given hx =>
    obtain ⟨target, -, rfl⟩ := eq_of_execute hx
    exact ⟨target, rfl, rfl⟩

/-- What none of the instructions touches stays as it was. -/
theorem PerformsAll.load_eq {l : Location s} (h : PerformsAll is m m')
    (hl : ∀ i ∈ is, ¬i.Touches l) : m'.registers.load l = m.registers.load l := by
  induction h with
  | nil => rfl
  | @cons i is m m₁ m' h _ ih =>
    obtain ⟨hfirst, hrest⟩ := List.forall_mem_cons.mp hl
    obtain ⟨target, hregisters, -⟩ := h.exists_target
    rw [ih hrest, hregisters]
    exact m.registers.load_perform target hfirst

/-- The last machine has the flags of the first again, and differs from the one before it in the flags
and `PC` only. -/
structure RestoresFlags (m before after : Machine s) : Prop where
  flags_eq : after.registers.flags = m.registers.flags
  status_eq : (Host.embed after).bank.status = (Host.embed m).bank.status
  counter_eq : after.registers.get .pc = before.registers.following
  load_eq : ∀ l, l ≠ .flags → l ≠ Register.pc.location s →
    after.registers.load l = before.registers.load l
  program_eq : after.program = before.program

/-- Flags come back from a register below `SP` that they have been saved in. The status word is read
under any of its names and written under any; between the two there are any number of steps, or of
instructions given to the machine, whatever they do to the flags, to control and to other registers,
but none of them has that register as its destination. Writing it back succeeds, and changes nothing
but the flags and `PC`; where it is a step, the step is counted. -/
theorem saved_flags_return {m₁ m₂ : Machine s} {rd : Register} (hrd : rd.index ≤ 12)
    {saved restored : SpecialRegister} (hsaved : saved.showsFlags = true)
    (hrestored : restored.showsFlags = true) (hsave : Performs (.readSpecial rd saved) m m₁)
    (hbetween : PerformsAll is m₁ m₂) (hkeep : ∀ i ∈ is, i.destination? ≠ some rd) :
    (∃ m₃, m₂.execute (.writeSpecial restored rd) = .ok m₃ ∧ m₃.executed = m₂.executed) ∧
    (∀ e, m₂.program.get? m₂.pc = some e → e.instruction = .writeSpecial restored rd →
      ∃ m₃, m₂.step = .ok (some m₃) ∧ m₃.executed = m₂.executed + 1) ∧
    ∀ m₃, Performs (.writeSpecial restored rd) m₂ m₃ → m.RestoresFlags m₂ m₃ := by
  have hget : m₂.registers.get rd = m.registers.flags.word s.bits := by
    obtain ⟨target, hregisters, -⟩ := hsave.exists_target
    have hkept : m₂.registers.get rd = m₁.registers.get rd :=
      hbetween.load_eq (l := rd.location s) fun i hi htouch =>
        hkeep i hi (htouch.destination?_eq hrd)
    rw [hkept, hregisters]
    exact m.registers.get_perform_readSpecial target rd hsaved
  refine ⟨⟨_, rfl, rfl⟩, ?_, ?_⟩
  · intro e he hi
    have htarget : m₂.target e.instruction = .ok 0 := by
      rw [hi]
      rfl
    exact ⟨_, step_eq_of_target he htarget, rfl⟩
  · intro m₃ hrestore
    obtain ⟨target, hregisters, hprogram⟩ := hrestore.exists_target
    rw [m₂.registers.perform_writeSpecial target hrestored hget] at hregisters
    have hflags : m₃.registers.flags = m.registers.flags := by
      rw [hregisters]
      rfl
    refine ⟨hflags, ?_, ?_, ?_, hprogram⟩
    · exact congrArg (fun flags => Host.widen (flags.word s.bits)) hflags
    · rw [hregisters, RegisterFile.get_set_self]
    · intro l hl hpc
      rw [hregisters, RegisterFile.load_set hpc, RegisterFile.load_setFlags hl]

/-- A machine of sixteen bits that saves its flags in `R7`, sets them from a zero, points `PSP` at where
they are kept and clears them, before it writes them back. -/
def saving : Machine (.architectural .w16) :=
  (new _).afterAll [.assemble " MRS R7, IAPSR", .assemble " MOVS R0, #0", .assemble " MSR PSP, R7",
    .assemble " MSR EAPSR, R0", .assemble " MSR XPSR, R7", .edit (.flags ⟨true, false, true, true⟩)]

def savingBetween : List Instruction :=
  [.moveSet .r0 (.immediate 0), .writeSpecial .psp .r7, .writeSpecial .eapsr .r0]

theorem saved_flags_return_saving : ∃ m₁ m₂ m₃, Performs (.readSpecial .r7 .iapsr) saving m₁ ∧
    PerformsAll savingBetween m₁ m₂ ∧ (∀ i ∈ savingBetween, i.destination? ≠ some .r7) ∧
    m₂.registers.flags = .clear ∧ m₂.step = .ok (some m₃) ∧
    m₃.registers.flags = ⟨true, false, true, true⟩ ∧ (Host.embed m₃).bank.status = 0xb000 ∧
    m₃.registers.psp = 0xb000 := by
  have hkeep : ∀ i ∈ savingBetween, i.destination? ≠ some .r7 := by decide
  obtain ⟨hfirst, hsave, hbody, hclear, hpsp, hlast, hstatus⟩ : saving.program.get? saving.pc =
        some ⟨" MRS R7, IAPSR", none, .mrs, .readSpecial .r7 .iapsr⟩ ∧
      saving.step = .ok (some (saving.after .step)) ∧
      (saving.after .step).trace 3 =
        some (savingBetween, (saving.after .step).afterAll (List.replicate 3 .step)) ∧
      ((saving.after .step).afterAll (List.replicate 3 .step)).registers.flags = .clear ∧
      ((saving.after .step).afterAll (List.replicate 3 .step)).registers.psp = 0xb000 ∧
      ((saving.after .step).afterAll (List.replicate 3 .step)).program.get?
        ((saving.after .step).afterAll (List.replicate 3 .step)).pc =
        some ⟨" MSR XPSR, R7", none, .msr, .writeSpecial .xpsr .r7⟩ ∧
      (Host.embed saving).bank.status = 0xb000 := by decide +kernel
  have hperforms : Performs (.readSpecial .r7 .iapsr) saving (saving.after .step) :=
    .step hfirst rfl hsave
  have hbetween := (executes_of_trace hbody).performsAll
  have hlow : Register.r7.index ≤ 12 := by decide
  have hshown : SpecialRegister.xpsr.showsFlags = true := rfl
  obtain ⟨-, hstep, hrestores⟩ := saved_flags_return hlow rfl hshown hperforms hbetween hkeep
  obtain ⟨m₃, hs, -⟩ := hstep _ hlast rfl
  have hrestored := hrestores m₃ (.step hlast rfl hs)
  refine ⟨_, _, m₃, hperforms, hbetween, hkeep, hclear, hs, hrestored.flags_eq, ?_, ?_⟩
  · rw [hrestored.status_eq]
    exact hstatus
  · exact (hrestored.load_eq .psp nofun nofun).trans hpsp

end Machine
end Thumb
