import Mathlib.Algebra.Order.Ring.Int
import Mathlib.Tactic.Ring
import Thumb.Machine
import Thumb.Proofs.DecodeTable
import Thumb.Proofs.History

/-! Branches after a comparison. The flags that a subtraction leaves are worked out from the exact
difference, and each branch condition is then a comparison of integers. -/
namespace Thumb

/-- The integer that a number below `2 ^ w` stands for in two's complement. -/
def signed (w n : ℕ) : ℤ := if n < 2 ^ (w - 1) then n else n - 2 ^ w

theorem signed_eq (w n : ℕ) :
    signed w n = if n < 2 ^ (w - 1) then (n : ℤ) else n - (2 ^ w : ℕ) := by
  rw [signed, Nat.cast_pow]
  rfl

/-- Whether an integer can be written in two's complement with `w` bits. -/
def FitsSigned (w : ℕ) (x : ℤ) : Prop := -2 ^ (w - 1) ≤ x ∧ x < 2 ^ (w - 1)

theorem fitsSigned_iff (w : ℕ) (x : ℤ) :
    FitsSigned w x ↔ -((2 ^ (w - 1) : ℕ) : ℤ) ≤ x ∧ x < (2 ^ (w - 1) : ℕ) := by
  rw [FitsSigned, Nat.cast_pow]
  rfl

/-- The comparison of two numbers below `2 ^ w` that a condition is named for. -/
def Condition.Compares (cond : Condition) (w a b : ℕ) : Prop :=
  match cond with
  | eq => a = b
  | ne => a ≠ b
  | cs => a ≥ b
  | cc => a < b
  | hi => a > b
  | ls => a ≤ b
  | ge => signed w a ≥ signed w b
  | lt => signed w a < signed w b
  | gt => signed w a > signed w b
  | le => signed w a ≤ signed w b
  | vs => ¬FitsSigned w (signed w a - signed w b)
  | vc => FitsSigned w (signed w a - signed w b)
  | mi => 2 ^ (w - 1) ≤ ((a : ℤ) - b) % 2 ^ w
  | pl => ((a : ℤ) - b) % 2 ^ w < 2 ^ (w - 1)
  | always => True

section Difference

variable {w : ℕ}

theorem two_pow_eq (hw : 0 < w) : 2 ^ w = 2 * 2 ^ (w - 1) := by
  obtain ⟨k, rfl⟩ := Nat.exists_eq_succ_of_ne_zero hw.ne'
  rw [Nat.succ_sub_one, Nat.pow_succ']

theorem signed_inj (hw : 0 < w) {m n : ℕ} (hm : m < 2 ^ w) (hn : n < 2 ^ w) :
    signed w m = signed w n ↔ m = n := by
  have hpow := two_pow_eq hw
  rw [signed_eq, signed_eq]
  generalize 2 ^ w = top at *
  generalize 2 ^ (w - 1) = half at *
  split <;> split <;> omega

/-- The stored difference is the exact one, with `2 ^ w` added after a borrow. -/
theorem toNat_sub_eq (a b : BitVec w) :
    (a - b).toNat = if b.toNat ≤ a.toNat then a.toNat - b.toNat else a.toNat + 2 ^ w - b.toNat := by
  have ha := a.isLt
  have hb := b.isLt
  rw [BitVec.toNat_sub]
  split
  · next h =>
    have hsum : 2 ^ w - b.toNat + a.toNat = (a.toNat - b.toNat) + 2 ^ w := by omega
    rw [hsum, Nat.add_mod_right, Nat.mod_eq_of_lt (by omega)]
  · next h => rw [Nat.mod_eq_of_lt (by omega)]; omega

theorem toNat_sub_eq_emod (a b : BitVec w) :
    ((a - b).toNat : ℤ) = ((a.toNat : ℤ) - b.toNat) % 2 ^ w := by
  have hb := b.isLt
  rw [BitVec.toNat_sub, Int.natCast_mod]
  push_cast [hb.le]
  rw [show (2 : ℤ) ^ w - b.toNat + a.toNat = (a.toNat - b.toNat) + 2 ^ w by ring,
    Int.add_emod_right]

def Flags.difference (a b : BitVec w) : Flags := .ofArith .sub a b (a - b)

theorem difference_n_iff (a b : BitVec w) :
    (Flags.difference a b).n = true ↔ 2 ^ (w - 1) ≤ (a - b).toNat := by
  simp [Flags.difference, Flags.ofArith, BitVec.msb_eq_decide]

theorem difference_z_iff (a b : BitVec w) :
    (Flags.difference a b).z = true ↔ a.toNat = b.toNat := by
  change (a - b == 0) = true ↔ _
  rw [beq_iff_eq, BitVec.toNat_inj]
  constructor
  · intro h
    exact (BitVec.sub_eq_iff_eq_add.mp h).trans (BitVec.zero_add b)
  · rintro rfl
    exact BitVec.sub_self a

theorem difference_c_iff (a b : BitVec w) :
    (Flags.difference a b).c = true ↔ b.toNat ≤ a.toNat := by
  simp [Flags.difference, Flags.ofArith, Arith.carry, BitVec.usubOverflow]

/-- Overflow is set when the exact signed difference has no place in a word. -/
theorem difference_v_iff (hw : 0 < w) (a b : BitVec w) :
    (Flags.difference a b).v = true ↔
      ¬FitsSigned w (signed w a.toNat - signed w b.toNat) := by
  have ha := a.isLt
  have hb := b.isLt
  have hr := toNat_sub_eq a b
  have hpow := two_pow_eq hw
  have hv : (Flags.difference a b).v = true ↔
      ¬(2 ^ (w - 1) ≤ a.toNat ↔ 2 ^ (w - 1) ≤ b.toNat) ∧
        ¬(2 ^ (w - 1) ≤ (a - b).toNat ↔ 2 ^ (w - 1) ≤ a.toNat) := by
    simp [Flags.difference, Flags.ofArith, Arith.overflow, BitVec.msb_eq_decide]
  rw [hv, fitsSigned_iff, signed_eq, signed_eq]
  generalize 2 ^ w = top at *
  generalize 2 ^ (w - 1) = half at *
  split <;> split <;> split at hr <;> omega

/-- `N` and `V` differ when the exact signed difference is negative. -/
theorem difference_n_ne_v_iff (hw : 0 < w) (a b : BitVec w) :
    (Flags.difference a b).n ≠ (Flags.difference a b).v ↔
      signed w a.toNat < signed w b.toNat := by
  have ha := a.isLt
  have hb := b.isLt
  have hr := toNat_sub_eq a b
  have hpow := two_pow_eq hw
  rw [Ne, Bool.eq_iff_iff, difference_n_iff, difference_v_iff hw, fitsSigned_iff, signed_eq,
    signed_eq]
  generalize 2 ^ w = top at *
  generalize 2 ^ (w - 1) = half at *
  split <;> split <;> split at hr <;> omega

/-- After a subtraction each condition holds exactly when its comparison does. -/
theorem Condition.holds_difference_iff (hw : 0 < w) (cond : Condition) (a b : BitVec w) :
    cond.holds (Flags.difference a b) = true ↔ cond.Compares w a.toNat b.toNat := by
  have hn := difference_n_iff a b
  have hz := difference_z_iff a b
  have hc := difference_c_iff a b
  have hv := difference_v_iff hw a b
  have hlt := difference_n_ne_v_iff hw a b
  have hsame := signed_inj hw a.isLt b.isLt
  cases cond with
  | eq => exact hz
  | ne => rw [Compares, Ne, ← hz, holds, Bool.not_eq_true', Bool.not_eq_true]
  | cs => exact hc
  | cc => rw [Compares, ← Nat.not_le, ← hc, holds, Bool.not_eq_true', Bool.not_eq_true]
  | mi =>
    rw [Compares, ← toNat_sub_eq_emod]
    exact_mod_cast hn
  | pl =>
    rw [Compares, ← toNat_sub_eq_emod, holds, Bool.not_eq_true', ← Bool.not_eq_true, hn, Nat.not_le]
    norm_cast
  | vs => exact hv
  | vc => rw [Compares, holds, Bool.not_eq_true', ← Bool.not_eq_true, hv, not_not]
  | hi =>
    rw [Compares, holds, Bool.and_eq_true, Bool.not_eq_true', ← Bool.not_eq_true, hc, hz]
    omega
  | ls =>
    rw [Compares, holds, Bool.or_eq_true, Bool.not_eq_true', ← Bool.not_eq_true, hc, hz]
    omega
  | lt => rw [Compares, holds, ← hlt, bne_iff_ne]
  | ge => rw [Compares, ge_iff_le, ← not_lt, ← hlt, holds, beq_iff_eq, ne_eq, not_not]
  | gt =>
    have hgt : signed w a.toNat > signed w b.toNat ↔
        ¬signed w a.toNat = signed w b.toNat ∧ ¬signed w a.toNat < signed w b.toNat := by omega
    rw [Compares, hgt, hsame, ← hz, ← hlt, not_not, holds, Bool.and_eq_true, Bool.not_eq_true',
      ← Bool.not_eq_true, beq_iff_eq]
  | le =>
    rw [Compares, le_iff_lt_or_eq, ← hlt, hsame, ← hz, holds, Bool.or_eq_true, bne_iff_ne, or_comm]
  | always => exact iff_of_true rfl trivial

end Difference

namespace Instruction

/-- The instruction sets the flags of the difference of a register and a second source. -/
def IsComparison (i : Instruction) (rn : Register) (source : Operand) : Prop :=
  i = .compare rn source ∨ ∃ rd, i = .arith .sub rd rn source

/-- What `CMP` and `SUBS` are decoded to compares; a literal in it has at most eight bits. -/
theorem exists_isComparison {m : Mnemonic} {count : ℕ} {tokens : List Token} {i : Instruction}
    (hm : m = .cmp ∨ m = .subs) (hcount : 16 ≤ count) (ht : ∀ t ∈ tokens, t.IsClassified)
    (hi : decode m count tokens = .ok i) :
    ∃ rn source, i.IsComparison rn source ∧ ∀ n, source = .immediate n → n ≤ 255 := by
  obtain ⟨rfl, ws, -, hform⟩ := (decode_eq_ok_iff hcount ht).mp hi
  cases i with
  | compare rn source =>
    refine ⟨rn, source, .inl rfl, ?_⟩
    rintro n rfl
    cases hform with
    | compareLiteral _ hn => exact hn
  | arith op rd rn source =>
    cases op with
    | add => rcases hm with hm | hm <;> cases hm
    | sub =>
      refine ⟨rn, source, .inr ⟨rd, rfl⟩, ?_⟩
      rintro n rfl
      cases hform with
      | arithLiteral _ _ hn => split at hn <;> omega
  | addCarry op | bitwise op | shift op | shiftBy op | reverse op | extend op =>
    cases op <;> rcases hm with hm | hm <;> cases hm
  | _ => rcases hm with hm | hm <;> cases hm

end Instruction

variable {s : Shape}

def RegisterFile.number (f : RegisterFile s) : Operand → ℕ
  | .register r => (f.get r).toNat
  | .immediate n => n

theorem RegisterFile.toNat_value (f : RegisterFile s) {source : Operand}
    (h : ∀ n, source = .immediate n → n < 2 ^ s.bits) :
    (f.value source).toNat = f.number source := by
  cases source with
  | register r => rfl
  | immediate n => exact Nat.mod_eq_of_lt (h n rfl)

theorem RegisterFile.flags_put (f : RegisterFile s) (rd : Register) (v : s.Word) :
    (f.put rd v).registers.flags = f.flags := by
  unfold put
  split <;> rfl

namespace Machine

theorem execute_comparison (m : Machine s) {i : Instruction} {rn : Register} {source : Operand}
    (h : i.IsComparison rn source) :
    ∃ m', m.execute i = .ok m' ∧ m'.program = m.program ∧
      m'.registers.flags = .difference (m.registers.get rn) (m.registers.value source) := by
  rcases h with rfl | ⟨rd, rfl⟩
  · exact ⟨_, rfl, rfl, rfl⟩
  · refine ⟨_, rfl, rfl, ?_⟩
    exact RegisterFile.flags_put _ rd _

/-- A branch moves `PC` and nothing else, to its label if its condition holds. -/
theorem execute_branch (m : Machine s) (cond : Condition) {label : String} {index : ℕ}
    (h : m.program.index? label = some index) :
    m.execute (.branch cond label) = .ok { m with
      registers := m.registers.set .pc
        (if cond.holds m.registers.flags then s.word index else m.registers.get .pc + 1) } := by
  have htarget : m.target (.branch cond label) = .ok index := by
    simp [target, Instruction.label?, h]
  rw [execute, htarget]
  cases hc : cond.holds m.registers.flags <;>
    simp [Except.map, RegisterFile.perform, RegisterFile.effect, hc, RegisterFile.jump,
      RegisterFile.stay, RegisterFile.following]

/-- A conditional branch right after `CMP` or `SUBS` decides the integer comparison that it is named
for, of the two sources before the instruction; it leaves all but `PC` alone. -/
theorem branch_after_comparison (m : Machine s) {mnemonic : Mnemonic} {tokens : List Token}
    {i : Instruction} (hm : mnemonic = .cmp ∨ mnemonic = .subs)
    (ht : ∀ t ∈ tokens, ∃ text, Token.classify mnemonic.takesLabel text = .ok t)
    (hi : Instruction.decode mnemonic s.registerCount tokens = .ok i)
    {c : Condition} {label : String} {index : ℕ}
    (hlabel : m.program.index? label = some index) :
    ∃ rn source m₁, (i = .compare rn source ∨ ∃ rd, i = .arith .sub rd rn source) ∧
      m.execute i = .ok m₁ ∧
      (c.Compares s.bits (m.registers.get rn).toNat (m.registers.number source) →
        m₁.execute (.branch c label) =
          .ok { m₁ with registers := m₁.registers.set .pc (s.word index) }) ∧
      (¬c.Compares s.bits (m.registers.get rn).toNat (m.registers.number source) →
        m₁.execute (.branch c label) =
          .ok { m₁ with registers := m₁.registers.set .pc (m₁.registers.get .pc + 1) }) := by
  have hclassified : ∀ t ∈ tokens, t.IsClassified := by
    intro t hmem
    exact ⟨_, ht t hmem⟩
  have hbits := s.sixteen_le_bits
  obtain ⟨rn, source, hcompares, hsmall⟩ :=
    Instruction.exists_isComparison hm s.sixteen_le hclassified hi
  obtain ⟨m₁, hm₁, hprogram, hflags⟩ := m.execute_comparison hcompares
  have hnumber : (m.registers.value source).toNat = m.registers.number source := by
    apply RegisterFile.toNat_value
    intro n hn
    calc n ≤ 255 := hsmall n hn
      _ < 2 ^ 16 := by decide
      _ ≤ 2 ^ s.bits := Nat.pow_le_pow_right (by decide) hbits
  have hholds : c.holds m₁.registers.flags = true ↔
      c.Compares s.bits (m.registers.get rn).toNat (m.registers.number source) := by
    rw [hflags, Condition.holds_difference_iff (by omega), hnumber]
  have hbranch := m₁.execute_branch c (hprogram ▸ hlabel)
  refine ⟨rn, source, m₁, hcompares, hm₁, ?_, ?_⟩
  · intro h
    rw [hbranch, if_pos (hholds.mpr h)]
  · intro h
    rw [hbranch, if_neg (fun hc => h (hholds.mp hc))]

def labelled : Machine (.architectural .w16) := (new _).after (.assemble "done NOP")

theorem branch_after_comparison_labelled :
    Instruction.decode .cmp 16 [⟨.register, "R0"⟩, ⟨.immediate, "#1"⟩] =
      .ok (.compare .r0 (.immediate 1)) ∧
    ∃ m₁, labelled.execute (.compare .r0 (.immediate 1)) = .ok m₁ ∧
      m₁.execute (.branch .lt "done") = .ok { m₁ with registers := m₁.registers.set .pc 0 } := by
  have hi : Instruction.decode .cmp 16 [⟨.register, "R0"⟩, ⟨.immediate, "#1"⟩] =
      .ok (.compare .r0 (.immediate 1)) := by decide +kernel
  have ht : ∀ t ∈ [Token.mk .register "R0", ⟨.immediate, "#1"⟩],
      ∃ text, Token.classify Mnemonic.cmp.takesLabel text = .ok t := by
    intro t hmem
    refine ⟨t.text, ?_⟩
    revert t
    decide +kernel
  have hlabel : labelled.program.index? "done" = some 0 := by decide +kernel
  refine ⟨hi, ?_⟩
  obtain ⟨rn, source, m₁, hform, hm₁, htaken, -⟩ :=
    branch_after_comparison (c := .lt) labelled (.inl rfl) ht hi hlabel
  obtain ⟨⟨⟩⟩ | ⟨rd, ⟨⟩⟩ := hform
  refine ⟨m₁, hm₁, htaken ?_⟩
  have hzero : (labelled.registers.get .r0).toNat = 0 := by decide +kernel
  change signed 16 (labelled.registers.get .r0).toNat < signed 16 1
  rw [hzero]
  decide

end Machine
end Thumb
