import Thumb.Proofs.ByteReversal

/-! Destination registers. What an instruction computes is a number, worked out from what the
registers hold before it, and its destination receives the residue of that number. `PC` is a
destination like any other, so whatever writes it is a jump. Only a carrying sum into `PC` is lost:
control goes on to the following instruction, and the flags are all that the sum leaves. -/
namespace Thumb

variable {s : Shape}

/-- The number `r` is what a word of `w` bits keeps of the integer `z`. -/
def IsResidue (w : ℕ) (z : ℤ) (r : ℕ) : Prop := (r : ℤ) = z % 2 ^ w

theorem isResidue_of_ofInt {w : ℕ} {z : ℤ} {v : BitVec w} (h : BitVec.ofInt w z = v) :
    IsResidue w z v.toNat := h ▸ natCast_toNat_ofInt w z

namespace RegisterFile

/-- The number `r` is what the instruction computes for its destination. The registers are read as
they are before it, `PC` being the index of the instruction itself. -/
def IsResult (f : RegisterFile s) (i : Instruction) (r : ℕ) : Prop :=
  let x (rn : Register) : ℕ := (f.get rn).toNat
  match i with
  | .addCarry .add rdn rm => IsResidue s.bits (x rdn + x rm + f.flags.c.toNat) r
  | .addCarry .sub rdn rm => IsResidue s.bits (x rdn - x rm - 1 + f.flags.c.toNat) r
  | .add _ rn source => IsResidue s.bits (x rn + f.number source) r
  | .arith op _ rn source => IsResidue s.bits (op.number (x rn) (f.number source)) r
  | .negate _ rn => IsResidue s.bits (Arith.sub.number 0 (x rn)) r
  | .subSp n => IsResidue s.bits (x .sp - n) r
  | .multiply rdm rn => IsResidue s.bits (x rdm * x rn) r
  | .bitwise op rdn rm => IsResidue s.bits (op.number (x rdn) (x rm)) r
  | .shift op _ rm n => ∃ lost, (Moving.shift op).Exact s.bits (x rm) n r lost
  | .shiftBy op rdn rm => ∃ lost, (Moving.shift op).Exact s.bits (x rdn) (x rm % 256) r lost
  | .rotateBy rdn rm => ∃ lost, Moving.rotate.Exact s.bits (x rdn) (x rm % 256) r lost
  | .move _ rm => r = x rm
  | .moveSet _ source => IsResidue s.bits (f.number source) r
  | .moveNot _ rm => IsResidue s.bits (-x rm - 1) r
  | .reverse .word _ rm =>
    ∀ k < s.bits / 8, byteOf r k = byteOf (x rm) (s.bits / 8 - 1 - k)
  | .reverse .halfwords _ rm => ∀ k < s.bits / 8, byteOf r k = byteOf (x rm) (otherByte k)
  | .reverse .signedHalfword _ rm => IsResidue s.bits (signed 16 (swappedHalfword (x rm))) r
  | .extend op _ rm => op.Extends s.bits (x rm) r
  | .readSpecial _ special => r = f.read (special.location s)
  | _ => False

def carryFlags (f : RegisterFile s) (op : Arith) (rdn rm : Register) : Flags :=
  (Thumb.addWithCarry (f.get rdn) (op.addend (f.get rm)) f.flags.c).flags

section Results

variable (f : RegisterFile s)

theorem word_number (source : Operand) : BitVec.ofNat s.bits (f.number source) = f.value source := by
  cases source with
  | register r => exact f.word_get r
  | immediate n => rfl

theorem isResult_addCarry (op : Arith) (rdn rm : Register) :
    f.IsResult (.addCarry op rdn rm)
      (Thumb.addWithCarry (f.get rdn) (op.addend (f.get rm)) f.flags.c).result.toNat := by
  cases op with
  | add =>
    refine isResidue_of_ofInt ?_
    rw [ofInt_sum_carry, word_get, word_get]
    rfl
  | sub =>
    refine isResidue_of_ofInt ?_
    rw [ofInt_difference_carry, word_get, word_get]
    rfl

theorem isResult_reverse (op : Reversal) (rd rm : Register) :
    f.IsResult (.reverse op rd rm) (op.eval (f.get rm)).toNat := by
  cases op with
  | word => exact fun k hk => Reversal.byteOf_eval_word (f.get rm) hk
  | halfwords =>
    exact fun k hk => Reversal.byteOf_eval_halfwords s.sixteen_dvd_bits (f.get rm) hk
  | signedHalfword =>
    have hextended := toNat_signExtend_eq (w := s.bits) (show 0 < 16 by decide)
      (Reversal.word.eval ((f.get rm).setWidth 16))
    rwa [Reversal.toNat_eval_word_halfword] at hextended

/-- An instruction with a destination puts what it computes there, if it is no carrying sum. -/
theorem exists_put (target : ℕ) {i : Instruction} {rd : Register} (hd : i.destination? = some rd)
    (hi : ∀ op rdn rm, i ≠ .addCarry op rdn rm) :
    ∃ (g : RegisterFile s) (v : s.Word), f.effect target i = g.put rd v ∧ f.IsResult i v.toNat := by
  have hpos : 0 < s.bits := lt_of_lt_of_le (by decide) s.sixteen_le_bits
  cases i with
  | addCarry op rdn rm => exact absurd rfl (hi op rdn rm)
  | add _ rn source =>
    cases hd
    refine ⟨_, _, rfl, isResidue_of_ofInt ?_⟩
    rw [ofInt_sum, word_get, word_number]
  | arith op _ rn source =>
    cases hd
    refine ⟨_, _, rfl, isResidue_of_ofInt ?_⟩
    rw [op.ofInt_number, word_get, word_number]
  | negate _ rn =>
    cases hd
    refine ⟨_, _, rfl, isResidue_of_ofInt ?_⟩
    rw [Arith.ofInt_number, word_get]
    rfl
  | subSp n =>
    cases hd
    refine ⟨_, _, rfl, isResidue_of_ofInt ?_⟩
    rw [ofInt_difference, word_get]
    rfl
  | multiply rdm rn =>
    cases hd
    refine ⟨_, _, rfl, isResidue_of_ofInt ?_⟩
    rw [ofInt_product, word_get, word_get]
  | bitwise op rdn rm =>
    cases hd
    refine ⟨_, _, rfl, isResidue_of_ofInt ?_⟩
    rw [op.ofInt_number, word_get, word_get]
  | shift op _ rm n =>
    cases hd
    exact ⟨_, _, rfl, _, (Moving.shift op).exact_eval hpos (f.get rm) n⟩
  | shiftBy op _ rm =>
    cases hd
    refine ⟨_, _, rfl, ((Moving.shift op).eval (f.get rd) (f.lowByte rm)).carry, ?_⟩
    change (Moving.shift op).Exact s.bits (f.get rd).toNat ((f.get rm).toNat % 256) _ _
    rw [← lowByte_eq]
    exact (Moving.shift op).exact_eval hpos (f.get rd) (f.lowByte rm)
  | rotateBy _ rm =>
    cases hd
    refine ⟨_, _, rfl, (Moving.rotate.eval (f.get rd) (f.lowByte rm)).carry, ?_⟩
    change Moving.rotate.Exact s.bits (f.get rd).toNat ((f.get rm).toNat % 256) _ _
    rw [← lowByte_eq]
    exact Moving.rotate.exact_eval hpos (f.get rd) (f.lowByte rm)
  | move _ rm =>
    cases hd
    exact ⟨_, _, rfl, rfl⟩
  | moveSet _ source =>
    cases hd
    refine ⟨_, _, rfl, isResidue_of_ofInt ?_⟩
    rw [BitVec.ofInt_natCast, word_number]
  | moveNot _ rm =>
    cases hd
    refine ⟨_, _, rfl, isResidue_of_ofInt ?_⟩
    rw [ofInt_complement, word_get]
  | reverse op _ rm =>
    cases hd
    exact ⟨_, _, rfl, f.isResult_reverse op rd rm⟩
  | extend op _ rm =>
    cases hd
    exact ⟨_, _, rfl, op.extends_eval s.sixteen_le_bits (f.get rm)⟩
  | readSpecial _ special =>
    cases hd
    exact ⟨_, _, rfl, rfl⟩
  | _ => cases hd

/-- A carrying sum into `PC` is lost, for `PC` moves on over it. -/
theorem perform_addCarry_pc (target : ℕ) (op : Arith) (rm : Register) :
    f.perform target (.addCarry op .pc rm) =
      (f.setFlags (f.carryFlags op .pc rm)).set .pc f.following := by
  simp [perform, effect, stay, set, setFlags, carryFlags]

/-- The destination holds the result, be it `PC` or not, but for a carrying sum into `PC`. -/
theorem isResult_get_perform (target : ℕ) {i : Instruction} {rd : Register}
    (hd : i.destination? = some rd) (hi : ∀ op rm, i ≠ .addCarry op .pc rm) :
    f.IsResult i ((f.perform target i).get rd).toNat := by
  -- A carrying sum writes its register itself, before `PC` moves; all others put their result.
  by_cases hcarry : ∃ op rdn rm, i = .addCarry op rdn rm
  · obtain ⟨op, _, rm, rfl⟩ := hcarry
    cases hd
    have hpc : rd ≠ .pc := by
      rintro rfl
      exact hi op rm rfl
    have hget : (f.perform target (.addCarry op rd rm)).get rd =
        (Thumb.addWithCarry (f.get rd) (op.addend (f.get rm)) f.flags.c).result := by
      rw [get_perform_of_ne hpc]
      simp [effect, stay]
    rw [hget]
    exact f.isResult_addCarry op rd rm
  · obtain ⟨g, v, heffect, hresult⟩ := f.exists_put target hd fun op rdn rm h =>
      hcarry ⟨op, rdn, rm, h⟩
    rw [get_perform_of_put heffect]
    exact hresult

end Results
end RegisterFile

theorem Instruction.label?_of_destination? {i : Instruction} {rd : Register}
    (hd : i.destination? = some rd) : i.label? = none := by
  cases i with
  | branch | branchLink => cases hd
  | _ => rfl

namespace Machine

/-- Destinations hold results. An instruction with a destination succeeds, also where the machine is
changed in place, and leaves there what it computes from the registers before it; if the destination
is `PC`, control goes there. The exception is a carrying sum or difference into `PC`: it sets the
flags, and control goes on to the following instruction whatever the sum is. -/
theorem destinations_hold_results (m : Machine s) {i : Instruction} {rd : Register}
    (hd : i.destination? = some rd) :
    ∃ m', m.execute i = .ok m' ∧ (Host.embed m).execute i = some (.ok (), Host.embed m') ∧
      ((∀ op rm, i ≠ .addCarry op .pc rm) →
        m.registers.IsResult i (m'.registers.get rd).toNat ∧
        (rd = .pc → m.registers.IsResult i m'.pc)) ∧
      ∀ op rm, i = .addCarry op .pc rm → m'.registers =
        (m.registers.setFlags (m.registers.carryFlags op .pc rm)).set .pc m.registers.following := by
  have hx := m.execute_eq_of_label?_eq_none (Instruction.label?_of_destination? hd)
  refine ⟨_, hx, ?_, ?_, ?_⟩
  · rw [Host.execute_embed, hx]
  · intro hi
    have hresult := m.registers.isResult_get_perform 0 hd hi
    refine ⟨hresult, ?_⟩
    rintro rfl
    exact hresult
  · rintro op rm rfl
    exact m.registers.perform_addCarry_pc 0 op rm

def jumping : Machine (.architectural .w32) :=
  (new _).afterAll [.edit (.named "R0" 5), .edit (.named "PC" 10)]

theorem destinations_hold_results_jumping :
    Instruction.destination? (.arith .add .pc .pc (.register .r0)) = some .pc ∧
      ∃ m', jumping.execute (.arith .add .pc .pc (.register .r0)) = .ok m' ∧ m'.pc = 15 := by
  have hd : Instruction.destination? (.arith .add .pc .pc (.register .r0)) = some .pc := rfl
  obtain ⟨m', hx, -, hresult, -⟩ := destinations_hold_results jumping hd
  have hpc : jumping.registers.IsResult (.arith .add .pc .pc (.register .r0)) m'.pc :=
    (hresult nofun).2 rfl
  have hsource : (jumping.registers.get .pc).toNat = 10 ∧ (jumping.registers.get .r0).toNat = 5 := by
    decide +kernel
  have hsum : (m'.pc : ℤ) =
      ((jumping.registers.get .pc).toNat + (jumping.registers.get .r0).toNat : ℤ) % 2 ^ 32 := hpc
  rw [hsource.1, hsource.2] at hsum
  refine ⟨hd, m', hx, ?_⟩
  omega

/-- The carrying sum of `PC` and `R0` is fifteen, and control goes on to eleven. -/
theorem carrying_sum_into_pc_lost :
    jumping.Reachable ∧ Instruction.destination? (.addCarry .add .pc .r0) = some .pc ∧
      ∃ m', jumping.execute (.addCarry .add .pc .r0) = .ok m' ∧ m'.pc = 11 ∧
        jumping.registers.IsResult (.addCarry .add .pc .r0) 15 ∧
        ¬jumping.registers.IsResult (.addCarry .add .pc .r0) m'.pc := by
  have hpc : (jumping.after (.execute (.addCarry .add .pc .r0))).pc = 11 := by decide +kernel
  have hsum : (jumping.registers.get .pc).toNat = 10 ∧ (jumping.registers.get .r0).toNat = 5 ∧
      jumping.registers.flags.c = false := by
    decide +kernel
  have hresult : ∀ r, jumping.registers.IsResult (.addCarry .add .pc .r0) r ↔
      (r : ℤ) = (10 + 5 + 0) % 2 ^ 32 := by
    intro r
    simp only [RegisterFile.IsResult, hsum.1, hsum.2.1, hsum.2.2]
    rfl
  refine ⟨Reachable.new.afterAll _, rfl, _, rfl, hpc, ?_, ?_⟩
  · rw [hresult]
    decide
  · change ¬jumping.registers.IsResult _ (jumping.after (.execute (.addCarry .add .pc .r0))).pc
    rw [hresult, hpc]
    decide

end Machine
end Thumb
