import Thumb.Proofs.Host.Actions
import Thumb.Proofs.Host.Assembly

/-! Histories of a machine that is changed in place. Every call leaves what it leaves of the machine
itself, failures included, so that nothing a computer can be asked to do takes the registers out of
their bounds. -/
namespace Thumb
namespace Host

variable {s : Shape}

/-- The bank after a change; numbers are taken as words. -/
def Bank.edit? (b : Bank) : Edit s → Option Bank
  | .location (.slot i) n => b.write? i (BitVec.ofNat 64 n)
  | .location .flags n => b.writeSpecial? .apsr (BitVec.ofNat 64 n)
  | .location .psp n => b.writeSpecial? .psp (BitVec.ofNat 64 n)
  | .location .primask n => b.writeSpecial? .primask (BitVec.ofNat 64 n)
  | .location .control n => b.writeSpecial? .control (BitVec.ofNat 64 n)
  | .location .zero n => b.writeSpecial? .ipsr (BitVec.ofNat 64 n)
  | .named name n => (b.setNamed? name (BitVec.ofNat 64 n)).map Prod.snd
  | .flag flag value => b.setFlag? flag value
  | .flags flags => b.setFlags? flags
  | .negative result => b.setN? (BitVec.ofNat 64 result)
  | .zero result => b.setZ? (BitVec.ofNat 64 result)
  | .carry op x y => b.setC? op (BitVec.ofNat 64 x) (BitVec.ofNat 64 y)
  | .overflow op x y result =>
    b.setV? op (BitVec.ofNat 64 x) (BitVec.ofNat 64 y) (BitVec.ofNat 64 result)
  | .result result => b.setNZ? (BitVec.ofNat 64 result)
  | .arith op x y result =>
    b.setNZCV? op (BitVec.ofNat 64 x) (BitVec.ofNat 64 y) (BitVec.ofNat 64 result)

namespace State

/-- The state that a call leaves. A run that has not ended counts for nothing. -/
def after (h : State) : Call s → Option State
  | .assemble line => some (h.evaluate line).2
  | .step => h.step.map Prod.snd
  | .run fuel => (h.run fuel).map fun (outcome, h') => if outcome.isSome then h' else h
  | .execute i => (h.execute i).map Prod.snd
  | .edit e => (h.bank.edit? e).map fun bank => { h with bank := bank }

def afterAll (h : State) (calls : List (Call s)) : Option State := calls.foldlM after h

end State

/-- The bank has registers of `bits` bits and `count` of them are numbered, and every register holds
only what it has bits for. -/
structure Bank.Within (b : Bank) (bits count : ℕ) : Prop where
  width_eq : b.width = bits
  size_eq : b.words.size = count
  words_lt : ∀ u ∈ b.words, u.toNat < 2 ^ bits
  psp_lt : b.psp.toNat < 2 ^ bits
  status_bits : ∀ i, b.status.getLsbD i = true → bits - 4 ≤ i ∧ i < bits
  primask_le : b.primask.toNat ≤ 1
  control_le : b.control.toNat ≤ 3

theorem within_pack (f : RegisterFile s) : (pack f).Within s.bits s.registerCount where
  width_eq := rfl
  size_eq := size_pack f
  words_lt := by
    intro u hu
    obtain ⟨v, -, rfl⟩ : ∃ v ∈ f.slots, widen v = u := by simpa [pack] using hu
    rw [toNat_widen s.bits_le]
    exact v.isLt
  psp_lt := by
    rw [pack, toNat_widen s.bits_le]
    exact f.psp.isLt
  status_bits := by
    intro i hi
    have hs := s.sixteen_le_bits
    rw [status_pack, getLsbD_widen s.bits_le, Flags.getLsbD_word (by omega)] at hi
    simp at hi
    omega
  primask_le := by
    rw [pack, toNat_widen (by decide)]
    exact Nat.le_of_lt_succ f.primask.isLt
  control_le := by
    rw [pack, toNat_widen (by decide)]
    exact Nat.le_of_lt_succ f.control.isLt

theorem write?_pack_ofNat (f : RegisterFile s) (i : Fin s.registerCount) (n : ℕ) :
    (pack f).write? i (BitVec.ofNat 64 n) = some (pack (f.write (.slot i) n)) := by
  rw [write?_pack, narrow_ofNat s.bits_le]
  rfl

theorem writeSpecial?_pack_ofNat (f : RegisterFile s) (r : SpecialRegister) (n : ℕ) :
    (pack f).writeSpecial? r (BitVec.ofNat 64 n) = some (pack (f.write (r.location s) n)) := by
  rw [writeSpecial?_pack, narrow_ofNat s.bits_le]
  rfl

theorem writeNamed_toNat_ofNat (f : RegisterFile s) (name : String) (n : ℕ) :
    f.writeNamed name (BitVec.ofNat 64 n).toNat = f.writeNamed name n := by
  simp only [RegisterFile.writeNamed, RegisterFile.write, word_toNat_eq, narrow_ofNat s.bits_le]
  rfl

theorem edit?_pack (f : RegisterFile s) (e : Edit s) :
    (pack f).edit? e = some (pack (f.edit e)) := by
  cases e with
  | location l n =>
    cases l with
    | slot i => exact write?_pack_ofNat f i n
    | flags => exact writeSpecial?_pack_ofNat f .apsr n
    | psp => exact writeSpecial?_pack_ofNat f .psp n
    | primask => exact writeSpecial?_pack_ofNat f .primask n
    | control => exact writeSpecial?_pack_ofNat f .control n
    | zero => exact writeSpecial?_pack_ofNat f .ipsr n
  | named name n =>
    rw [Bank.edit?, setNamed?_pack, writeNamed_toNat_ofNat]
    rfl
  | flag | flags => simp [Bank.edit?, RegisterFile.edit]
  | negative => simp [Bank.edit?, RegisterFile.edit, RegisterFile.setN, Shape.isNegative, Shape.word]
  | zero => simp [Bank.edit?, RegisterFile.edit, RegisterFile.setZ, Shape.word]
  | carry => simp [Bank.edit?, RegisterFile.edit, RegisterFile.setC, Shape.word]
  | overflow => simp [Bank.edit?, RegisterFile.edit, RegisterFile.setV, Shape.word]
  | result => simp [Bank.edit?, RegisterFile.edit, RegisterFile.setNZ, Shape.word]
  | arith => simp [Bank.edit?, RegisterFile.edit, RegisterFile.setNZCV, Shape.word]

/-- The state that a machine is held as. -/
def embed (m : Machine s) : State := ⟨pack m.registers, m.program, m.executed⟩

theorem new_eq_embed {c : Config} (hc : c.shape = .ok s) : State.new c = embed (Machine.new s) := by
  obtain ⟨hbits, hcount⟩ := Shape.eq_of_ofSizes hc
  rw [State.new, ← hbits, ← hcount, ← pack_zero]
  rfl

@[simp] theorem size_embed (m : Machine s) : (embed m).bank.words.size = s.registerCount :=
  size_pack m.registers

theorem execute_embed (m : Machine s) (i : Instruction) :
    (embed m).execute i = some (match m.execute i with
      | .ok m' => (.ok (), embed m')
      | .error e => (.error e, embed m)) := by
  rw [Machine.execute]
  change Option.map _ (Action.perform m.program i (pack m.registers)) = _
  cases ht : m.target i with
  | ok target =>
    have hgives := Action.gives_perform m.registers m.program i target fun _ =>
      Machine.index?_of_target ht
    rw [hgives]
    rfl
  | error e =>
    obtain ⟨label, ⟨hl, hi⟩, rfl⟩ := Machine.target_eq_error_iff.mp ht
    rw [Action.fails_perform m.registers hl hi]
    rfl

theorem step_embed (m : Machine s) :
    (embed m).step = some (match m.step with
      | .ok (some m') => (.ok true, embed m')
      | .ok none => (.ok false, embed m)
      | .error e => (.error e, embed m)) := by
  unfold State.step Machine.step
  have hpc : (widen (m.registers.get .pc)).toNat = m.pc := toNat_widen s.bits_le _
  rw [show (embed m).bank.read? Register.pc.index = some (widen (m.registers.get .pc)) from
    read?_pack m.registers (s.slot .pc)]
  simp only [Option.bind_eq_bind, Option.bind_some, hpc]
  have hprogram : (embed m).program = m.program := rfl
  rw [hprogram]
  cases m.program.get? m.pc with
  | none => rfl
  | some entry =>
    dsimp only
    rw [execute_embed]
    cases m.execute entry.instruction <;> rfl

/-- A run in place ends as the run does. -/
theorem run_embed (fuel : ℕ) (m : Machine s) :
    (embed m).run fuel = some (match m.run fuel with
      | .halted m' => (some (.ok ()), embed m')
      | .failed m' e => (some (.error e), embed m')
      | .exhausted m' => (none, embed m')) := by
  induction fuel generalizing m with
  | zero => rfl
  | succ fuel ih =>
    rw [State.run, Machine.run, step_embed]
    cases m.step with
    | error e => rfl
    | ok next =>
      cases next with
      | none => rfl
      | some m' => exact ih m'

/-- A call in place leaves what the call does, whether or not it fails. -/
theorem after_embed (m : Machine s) (call : Call s) :
    (embed m).after call = some (embed (m.after call)) := by
  cases call with
  | assemble line =>
    rw [State.after, State.evaluate_eq, size_embed, Machine.after_assemble]
    rfl
  | step =>
    rw [State.after, step_embed, Machine.after]
    cases m.step with
    | error e => rfl
    | ok next => cases next <;> rfl
  | run fuel =>
    rw [State.after, run_embed, Machine.after]
    cases m.run fuel <;> rfl
  | execute i =>
    rw [State.after, execute_embed, Machine.after]
    cases m.execute i <;> rfl
  | edit e =>
    rw [State.after, Machine.after, show (embed m).bank = pack m.registers from rfl, edit?_pack]
    rfl

theorem afterAll_embed (m : Machine s) (calls : List (Call s)) :
    (embed m).afterAll calls = some (embed (m.afterAll calls)) := by
  induction calls generalizing m with
  | nil => rfl
  | cons call calls ih =>
    rw [State.afterAll, List.foldlM_cons, after_embed]
    exact ih _

/-- Whatever is done to a new machine, the computer never traps, every register keeps within its
bounds, and what it holds is the machine. -/
theorem within_afterAll {c : Config} (hc : c.shape = .ok s) (calls : List (Call s)) :
    ∃ h, (State.new c).afterAll calls = some h ∧
      h.bank.Within c.bitWidth c.registerCount ∧
      h = embed ((Machine.new s).afterAll calls) := by
  obtain ⟨hbits, hcount⟩ := Shape.eq_of_ofSizes hc
  refine ⟨_, ?_, ?_, rfl⟩
  · rw [new_eq_embed hc, afterAll_embed]
  · rw [← hbits, ← hcount]
    exact within_pack _

/-- Sixteen bits are written to with more, and counted past. -/
def overfull : List (Call (.architectural .w16)) :=
  [.edit (.location (Register.r0.location _) 0x1ffff), .edit (.location .control 7),
    .edit (.location .flags 0xffffff), .execute (.arith .add .r1 .r0 (.immediate 0x10002))]

theorem within_afterAll_overfull :
    Config.shape { bitWidth := 16 } = .ok (.architectural .w16) ∧ ∃ h : State,
      (State.new { bitWidth := 16 }).afterAll overfull = some h ∧ h.bank.Within 16 16 ∧
      h.bank.words[0]? = some 0xffff ∧ h.bank.words[1]? = some 1 ∧ h.bank.control = 3 ∧
      h.bank.status = 0x2000 := by
  have hc : Config.shape { bitWidth := 16 } = .ok (.architectural .w16) := rfl
  obtain ⟨h, hafter, hwithin, rfl⟩ := within_afterAll hc overfull
  exact ⟨hc, _, hafter, hwithin, by decide +kernel, by decide +kernel, by decide +kernel,
    by decide +kernel⟩

end Host
end Thumb
