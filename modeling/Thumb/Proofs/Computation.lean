import Mathlib.Data.Nat.Bitwise
import Mathlib.Tactic.Ring
import Thumb.Proofs.OperandTable
import Thumb.RegisterFile.Perform

/-! What the instructions of arithmetic, logic and moves compute. The result is an integer in the
values of the written sources, and the written destination receives its residue modulo the register
width. -/
namespace Thumb

namespace Mnemonic

/-- The instructions that put a value computed from their sources into their first operand. -/
def computing : List Mnemonic :=
  [add, adds, adcs, sub, subs, sbcs, rsbs, muls, ands, orrs, eors, bics, mov, movs, mvns]

/-- The integer that an instruction computes from the values of its sources, in written order, and
from the carry. -/
def meaning? (m : Mnemonic) (carry : Bool) (values : List ℕ) : Option ℤ :=
  match m, values with
  | add, [x, y] => some (x + y)
  | adds, [x, y] => some (x + y)
  | adcs, [x, y] => some (x + y + carry.toNat)
  | sub, [x, y] => some (x - y)
  | subs, [x, y] => some (x - y)
  | sbcs, [x, y] => some (x - y - 1 + carry.toNat)
  | rsbs, [x, _] => some (0 - x)
  | muls, [x, y] => some (x * y)
  | ands, [x, y] => some (x &&& y : ℕ)
  | orrs, [x, y] => some (x ||| y : ℕ)
  | eors, [x, y] => some (x ^^^ y : ℕ)
  | bics, [x, y] => some (Nat.ldiff x y)
  | mov, [x] => some x
  | movs, [x] => some x
  | mvns, [x] => some (-x - 1)
  | _, _ => none

end Mnemonic

theorem Instruction.label?_eq_none {i : Instruction} (h : i.mnemonic ∈ Mnemonic.computing) :
    i.label? = none := by
  have htable : ∀ m ∈ Mnemonic.computing, m.takesLabel = false := by decide
  have hlabel := i.isSome_label?_eq
  rw [htable _ h] at hlabel
  simpa using hlabel

/-- A word keeps the residue of an integer. -/
theorem natCast_toNat_ofInt (w : ℕ) (z : ℤ) : ((BitVec.ofInt w z).toNat : ℤ) = z % 2 ^ w := by
  have hcut : (BitVec.ofInt w z).toNat = (z % (2 ^ w : ℕ)).toNat := BitVec.toNat_ofInt z
  have hnonneg : 0 ≤ z % (2 ^ w : ℕ) :=
    Int.emod_nonneg _ (Nat.cast_ne_zero.mpr (Nat.two_pow_pos w).ne')
  rw [hcut, Int.toNat_of_nonneg hnonneg, Nat.cast_pow]
  rfl

section Residue

variable (w x y : ℕ)

theorem ofInt_sum : BitVec.ofInt w (x + y) = BitVec.ofNat w x + BitVec.ofNat w y := by
  rw [BitVec.ofInt_add, BitVec.ofInt_natCast, BitVec.ofInt_natCast]

theorem ofInt_difference : BitVec.ofInt w (x - y) = BitVec.ofNat w x - BitVec.ofNat w y := by
  rw [Int.sub_eq_add_neg, BitVec.ofInt_add, BitVec.ofInt_neg, BitVec.ofInt_natCast,
    BitVec.ofInt_natCast, BitVec.sub_eq_add_neg]

theorem ofInt_product : BitVec.ofInt w (x * y) = BitVec.ofNat w x * BitVec.ofNat w y := by
  rw [BitVec.ofInt_mul, BitVec.ofInt_natCast, BitVec.ofInt_natCast]

theorem ofInt_complement : BitVec.ofInt w (-x - 1) = ~~~BitVec.ofNat w x := by
  rw [BitVec.not_eq_neg_add, Int.sub_eq_add_neg, BitVec.ofInt_add, BitVec.ofInt_neg,
    BitVec.ofInt_neg, BitVec.ofInt_natCast, BitVec.sub_eq_add_neg]
  rfl

theorem ofInt_sum_carry (carry : Bool) : BitVec.ofInt w (x + y + carry.toNat) =
    BitVec.ofNat w x + BitVec.ofNat w y + BitVec.ofNat w carry.toNat := by
  rw [BitVec.ofInt_add, ofInt_sum, BitVec.ofInt_natCast]

/-- Subtracting with a borrow adds the complement and the carry. -/
theorem ofInt_difference_carry (carry : Bool) : BitVec.ofInt w (x - y - 1 + carry.toNat) =
    BitVec.ofNat w x + ~~~BitVec.ofNat w y + BitVec.ofNat w carry.toNat := by
  have h : (x - y - 1 + carry.toNat : ℤ) = x + (-y - 1) + carry.toNat := by ring
  rw [h, BitVec.ofInt_add, BitVec.ofInt_add, ofInt_complement, BitVec.ofInt_natCast,
    BitVec.ofInt_natCast]

theorem ofNat_ldiff :
    BitVec.ofNat w (Nat.ldiff x y) = BitVec.ofNat w x &&& ~~~BitVec.ofNat w y := by
  ext i hi
  simp [← BitVec.getLsbD_eq_getElem, BitVec.getLsbD_ofNat, Nat.testBit_ldiff, hi]

def Arith.number (op : Arith) : ℤ :=
  match op with
  | add => x + y
  | sub => x - y

def Bitwise.number (op : Bitwise) : ℕ :=
  match op with
  | and => x &&& y
  | bic => Nat.ldiff x y
  | eor => x ^^^ y
  | orr => x ||| y

theorem Arith.ofInt_number (op : Arith) :
    BitVec.ofInt w (op.number x y) = op.eval (BitVec.ofNat w x) (BitVec.ofNat w y) := by
  cases op with
  | add => exact ofInt_sum w x y
  | sub => exact ofInt_difference w x y

theorem Bitwise.ofInt_number (op : Bitwise) :
    BitVec.ofInt w (op.number x y) = op.eval (BitVec.ofNat w x) (BitVec.ofNat w y) := by
  rw [BitVec.ofInt_natCast]
  cases op with
  | and => exact BitVec.ofNat_and
  | bic => exact ofNat_ldiff w x y
  | eor => exact BitVec.ofNat_xor
  | orr => exact BitVec.ofNat_or

end Residue

theorem Bitwise.eval_comm {w : ℕ} {op : Bitwise} (h : op ≠ .bic) (a b : BitVec w) :
    op.eval a b = op.eval b a := by
  cases op with
  | and => exact BitVec.and_comm a b
  | bic => exact absurd rfl h
  | eor => exact BitVec.xor_comm a b
  | orr => exact BitVec.or_comm a b

namespace RegisterFile

variable {s : Shape} {f g : RegisterFile s}

/-- The number that a written source stands for. -/
inductive Holds (f : RegisterFile s) : Written → ℕ → Prop
  | register (r : Register) : Holds f (.register r) (f.get r).toNat
  | literal (n : ℕ) : Holds f (.literal n) n

@[simp] theorem word_get (f : RegisterFile s) (r : Register) :
    BitVec.ofNat s.bits (f.get r).toNat = f.get r := s.word_toNat _

/-- A destination holds what was put into it, be it `PC` or not. -/
theorem get_perform_of_put {target : ℕ} {i : Instruction} {rd : Register} {v : s.Word}
    (h : f.effect target i = g.put rd v) : (f.perform target i).get rd = v := by
  unfold perform
  rw [h]
  by_cases hrd : rd = .pc
  · subst hrd
    simp [jump]
  · rw [put_of_ne hrd]
    simp [stay, hrd]

/-- The instruction puts the residue of what its name means into the first written operand. -/
def Computes (f : RegisterFile s) (target : ℕ) (i : Instruction) (ws : List Written) : Prop :=
  ∃ rd sources values z, ws = .register rd :: sources ∧ List.Forall₂ f.Holds sources values ∧
    i.mnemonic.meaning? f.flags.c values = some z ∧
    (f.perform target i).get rd = BitVec.ofInt s.bits z

theorem Computes.unary {target : ℕ} {i : Instruction} {rd : Register} {a : Written} {x : ℕ} {z : ℤ}
    (ha : f.Holds a x) (hz : i.mnemonic.meaning? f.flags.c [x] = some z)
    (h : (f.perform target i).get rd = BitVec.ofInt s.bits z) :
    f.Computes target i [.register rd, a] :=
  ⟨rd, [a], [x], z, rfl, .cons ha .nil, hz, h⟩

theorem Computes.binary {target : ℕ} {i : Instruction} {rd : Register} {a b : Written} {x y : ℕ}
    {z : ℤ} (ha : f.Holds a x) (hb : f.Holds b y)
    (hz : i.mnemonic.meaning? f.flags.c [x, y] = some z)
    (h : (f.perform target i).get rd = BitVec.ofInt s.bits z) :
    f.Computes target i [.register rd, a, b] :=
  ⟨rd, [a, b], [x, y], z, rfl, .cons ha (.cons hb .nil), hz, h⟩

theorem Register.ne_pc_of_isLow {r : Register} (h : r.isLow = true) : r ≠ .pc := by
  rintro rfl
  cases h

/-- Every instruction of arithmetic, logic or moves computes what its name means, whichever way its
operands are written and whichever of them coincide. -/
theorem computes_of_hasForm (f : RegisterFile s) (target : ℕ) {i : Instruction} {ws : List Written}
    (h : i.HasForm ws) (hm : i.mnemonic ∈ Mnemonic.computing) : f.Computes target i ws := by
  cases h with
  | @addCarry op rd rm hd =>
    -- a carrying sum into `PC` would be lost, but no low register is `PC`
    have hget : (f.perform target (.addCarry op rd rm)).get rd =
        (Thumb.addWithCarry (f.get rd) (op.addend (f.get rm)) f.flags.c).result := by
      rw [get_perform_of_ne (Register.ne_pc_of_isLow hd)]
      simp [effect, stay]
    cases op with
    | add =>
      refine .binary (.register rd) (.register rm) rfl (hget.trans ?_)
      rw [ofInt_sum_carry, word_get, word_get]
      rfl
    | sub =>
      refine .binary (.register rd) (.register rm) rfl (hget.trans ?_)
      rw [ofInt_difference_carry, word_get, word_get]
      rfl
  | @addRegister rd rn rm =>
    refine .binary (.register rn) (.register rm) rfl ((get_perform_of_put rfl).trans ?_)
    rw [ofInt_sum, word_get, word_get]
    rfl
  | @addToSp n =>
    refine .binary (.register .sp) (.literal n) rfl ((get_perform_of_put rfl).trans ?_)
    rw [ofInt_sum, word_get]
    rfl
  | @addToPointer rd rn n =>
    refine .binary (.register rn) (.literal n) rfl ((get_perform_of_put rfl).trans ?_)
    rw [ofInt_sum, word_get]
    rfl
  | @arithRegister op rd rn rm =>
    have hz (x y : ℕ) : (Instruction.arith op rd rn (.register rm)).mnemonic.meaning? f.flags.c
        [x, y] = some (op.number x y) := by cases op <;> rfl
    refine .binary (.register rn) (.register rm) (hz _ _) ((get_perform_of_put rfl).trans ?_)
    rw [op.ofInt_number, word_get, word_get]
    rfl
  | @arithLiteral op rd rn n =>
    have hz (x y : ℕ) : (Instruction.arith op rd rn (.immediate n)).mnemonic.meaning? f.flags.c
        [x, y] = some (op.number x y) := by cases op <;> rfl
    refine .binary (.register rn) (.literal n) (hz _ _) ((get_perform_of_put rfl).trans ?_)
    rw [op.ofInt_number, word_get]
    rfl
  | @negate rd rn =>
    refine .binary (.register rn) (.literal 0) rfl ((get_perform_of_put rfl).trans ?_)
    have hz := ofInt_difference s.bits 0 (f.get rn).toNat
    rw [word_get] at hz
    exact hz.symm
  | @subSp n =>
    refine .binary (.register .sp) (.literal n) rfl ((get_perform_of_put rfl).trans ?_)
    rw [ofInt_difference, word_get]
    rfl
  | @multiplyFirst rd rn =>
    refine .binary (.register rd) (.register rn) rfl ((get_perform_of_put rfl).trans ?_)
    rw [ofInt_product, word_get, word_get]
  | @multiplySecond rd rn =>
    refine .binary (.register rn) (.register rd) rfl ((get_perform_of_put rfl).trans ?_)
    rw [ofInt_product, word_get, word_get, BitVec.mul_comm]
  | @bitwiseFirst op rd rm =>
    have hz (x y : ℕ) : (Instruction.bitwise op rd rm).mnemonic.meaning? f.flags.c [x, y] =
        some (op.number x y : ℤ) := by cases op <;> rfl
    refine .binary (.register rd) (.register rm) (hz _ _) ((get_perform_of_put rfl).trans ?_)
    rw [op.ofInt_number, word_get, word_get]
  | @bitwiseSecond op rd rm hop =>
    have hz (x y : ℕ) : (Instruction.bitwise op rd rm).mnemonic.meaning? f.flags.c [x, y] =
        some (op.number x y : ℤ) := by cases op <;> rfl
    refine .binary (.register rm) (.register rd) (hz _ _) ((get_perform_of_put rfl).trans ?_)
    rw [op.ofInt_number, word_get, word_get, Bitwise.eval_comm hop]
  | @move rd rm =>
    refine .unary (.register rm) rfl ((get_perform_of_put rfl).trans ?_)
    rw [BitVec.ofInt_natCast, word_get]
  | @moveSetRegister rd rm =>
    refine .unary (.register rm) rfl ((get_perform_of_put rfl).trans ?_)
    rw [BitVec.ofInt_natCast, word_get]
    rfl
  | @moveSetLiteral rd n =>
    refine .unary (.literal n) rfl ((get_perform_of_put rfl).trans ?_)
    rw [BitVec.ofInt_natCast]
    rfl
  | @moveNot rd rm =>
    refine .unary (.register rm) rfl ((get_perform_of_put rfl).trans ?_)
    rw [ofInt_complement, word_get]
  | @shiftRight op | @shiftBy op | @reverse op | @extend op =>
    cases op <;> simp [Instruction.mnemonic, Mnemonic.computing] at hm
  | _ => simp [Instruction.mnemonic, Mnemonic.computing] at hm

end RegisterFile
end Thumb
