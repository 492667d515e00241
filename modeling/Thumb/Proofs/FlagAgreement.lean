import Thumb.Proofs.Host.Histories
import Thumb.Proofs.LimbChains

/-! The flags of arithmetic, worked out in two ways: by an addition with carry, which takes the
complement of what it subtracts, and from the operands and the result of a sum or a difference. They
are the same flags, so instructions that differ only in the way leave the same machine. -/
namespace Thumb

/-- The result, the carry and the overflow are those of the exact sum of two numbers below `2 ^ w`,
read without and with a sign. -/
structure ExactSum (w a b : ℕ) (carry : Bool) (result : ℕ) (c v : Bool) : Prop where
  result_eq : result = (a + b + carry.toNat) % 2 ^ w
  carry_iff : c = true ↔ 2 ^ w ≤ a + b + carry.toNat
  overflow_iff : v = true ↔ ¬FitsSigned w (signed w a + signed w b + carry.toNat)

namespace Arith

variable {w : ℕ}

/-- The carry that the operation takes in as an addition with carry. -/
def carryIn : Arith → Bool
  | add => false
  | sub => true

/-- The addition with carry that an operation is has its result. -/
theorem result_addWithCarry_addend (op : Arith) (a b : BitVec w) :
    (addWithCarry a (op.addend b) op.carryIn).result = op.eval a b := by
  cases op with
  | add => exact addWithCarry_false_result a b
  | sub =>
    change a + ~~~b + 1#w = a - b
    rw [BitVec.sub_eq_add_neg, BitVec.neg_eq_not_add, BitVec.add_assoc]

/-- It has the flags of the operation too: a sum with the complement carries when nothing is
borrowed, and the complement has the other sign. -/
theorem flags_addWithCarry_addend (hw : 0 < w) (op : Arith) (a b : BitVec w) :
    (addWithCarry a (op.addend b) op.carryIn).flags = Flags.ofArith op a b (op.eval a b) := by
  cases op with
  | add => exact addWithCarry_false_flags a b
  | sub =>
    have hresult := result_addWithCarry_addend .sub a b
    have hcarry : (addWithCarry a (~~~b) true).carry = Arith.sub.carry a b := by
      have hnot : (~~~b).toNat + b.toNat + 1 = 2 ^ w := by
        have hb := b.isLt
        rw [BitVec.toNat_not]
        omega
      have hborrow := (wideSum_addWithCarry a (~~~b) true).difference_carry_iff hnot
      rw [Bool.eq_iff_iff]
      refine hborrow.trans ?_
      simp [Arith.carry, BitVec.usubOverflow]
    have hoverflow (result : BitVec w) :
        Arith.add.overflow a (~~~b) result = Arith.sub.overflow a b result := by
      simp only [overflow, BitVec.msb_not, hw, decide_true, Bool.true_and]
      cases a.msb <;> cases b.msb <;> rfl
    have hv : (addWithCarry a (~~~b) true).overflow =
        Arith.sub.overflow a b (addWithCarry a (~~~b) true).result := hoverflow _
    simp only [addend, carryIn] at hresult ⊢
    rw [CarrySum.flags, Flags.ofArith, hcarry, hv, hresult]

end Arith

theorem exactSum_addWithCarry {w : ℕ} (hw : 0 < w) (a b : BitVec w) (carry : Bool) :
    ExactSum w a.toNat b.toNat carry (addWithCarry a b carry).result.toNat
      (addWithCarry a b carry).carry (addWithCarry a b carry).overflow := by
  have hsum := wideSum_addWithCarry a b carry
  exact ⟨hsum.result_eq, hsum.carry_iff, hsum.overflow_iff hw⟩

variable {s : Shape}

namespace Host

def Bank.sumFlags? (b : Bank) (x y : Word) (carry : Bool) : Option Flags := do
  let (result, c, v) ← b.addWithCarry? x y carry
  return ⟨← b.isNegative? result, result == 0, c, v⟩

theorem sumFlags?_pack (f : RegisterFile s) (x y : Word) (carry : Bool) :
    (pack f).sumFlags? x y carry =
      some (addWithCarry (narrow s.bits x) (narrow s.bits y) carry).flags := by
  rw [Bank.sumFlags?, addWithCarry?_pack]
  simp only [Option.bind_eq_bind, Option.bind_some, isNegative?_pack, narrow_widen s.bits_le,
    widen_beq_zero s.bits_le]
  rfl

theorem narrow_addend (op : Arith) (u : Word) :
    narrow s.bits (op.addend u) = op.addend (narrow s.bits u) := by
  cases op with
  | add => rfl
  | sub => exact narrow_not s.bits_le u

/-- The exact sum or difference of two words, cut to the width of a register. -/
def residue (w : ℕ) (op : Arith) (x y : Word) : Word :=
  BitVec.ofNat 64 (op.number x.toNat y.toNat % 2 ^ w).toNat

theorem narrow_residue (op : Arith) (x y : Word) :
    narrow s.bits (residue s.bits op x y) = op.eval (narrow s.bits x) (narrow s.bits y) := by
  have hnumber := op.ofInt_number s.bits x.toNat y.toNat
  rw [BitVec.ofNat_toNat, BitVec.ofNat_toNat] at hnumber
  have hcut (z : ℤ) : BitVec.ofNat s.bits (z % 2 ^ s.bits).toNat = BitVec.ofInt s.bits z := by
    have hz : (BitVec.ofInt s.bits z).toNat = (z % (2 ^ s.bits : ℕ)).toNat := BitVec.toNat_ofInt z
    rw [Nat.cast_pow] at hz
    exact (congrArg _ hz.symm).trans (s.word_toNat _)
  rw [residue, narrow_ofNat s.bits_le, hcut]
  exact hnumber

end Host

namespace RegisterFile

variable (f : RegisterFile s)

@[simp] theorem set_set (r : Register) (v v' : s.Word) : (f.set r v).set r v' = f.set r v' := by
  simp [set]

@[simp] theorem set_get (r : Register) : f.set r (f.get r) = f := by
  simp [set, get]

theorem set_comm {r r' : Register} (h : r ≠ r') (v v' : s.Word) :
    (f.set r v).set r' v' = (f.set r' v').set r v := by
  have hne : (s.slot r).val ≠ (s.slot r').val := fun hval => h (Register.index_injective hval)
  simp only [set, Vector.set_comm _ _ hne]

variable (target : ℕ)

theorem perform_putArith {i : Instruction} {op : Arith} {rd : Register} {a b : s.Word}
    (h : f.effect target i = f.putArith op rd a b) (hrd : rd ≠ .pc) :
    f.perform target i =
      ((f.setArithFlags op a b).set rd (op.eval a b)).set .pc f.following := by
  rw [perform, h, putArith, put_of_ne hrd]
  rfl

/-- With the carry that the operation takes in, carrying and not carrying make no difference. -/
theorem perform_addCarry {op : Arith} {rd : Register} (hrd : rd ≠ .pc)
    (hc : f.flags.c = op.carryIn) (rm : Register) :
    f.perform target (.addCarry op rd rm) = f.perform target (.arith op rd rd (.register rm)) := by
  have hbits := s.sixteen_le_bits
  rw [perform_putArith (i := .arith op rd rd (.register rm)) f target rfl hrd]
  simp only [perform, effect, hc, Arith.result_addWithCarry_addend,
    Arith.flags_addWithCarry_addend (show 0 < s.bits by omega)]
  rfl

/-- An operation whose result is thrown away leaves what the operation does, its destination
restored. -/
theorem set_perform_putArith {i j : Instruction} {op : Arith} {rd : Register} {a b : s.Word}
    (hi : f.effect target i = (f.setArithFlags op a b).stay)
    (hj : f.effect target j = f.putArith op rd a b) (hrd : rd ≠ .pc) :
    f.perform target i = (f.perform target j).set rd (f.get rd) := by
  have hget : (f.setArithFlags op a b).get rd = f.get rd := rfl
  rw [perform_putArith f target hj hrd, set_comm _ hrd.symm, set_set, ← hget, set_get, perform, hi]
  rfl

theorem perform_negate {rd rn rz : Register} (hrd : rd ≠ .pc) (hz : rz ≠ .pc) (hzd : rz ≠ rd)
    (hzn : rz ≠ rn) :
    f.perform target (.negate rd rn) =
      ((f.set rz 0).perform target (.arith .sub rd rz (.register rn))).set rz (f.get rz) := by
  have hsub : (f.set rz 0).effect target (.arith .sub rd rz (.register rn)) =
      (f.set rz 0).putArith .sub rd 0 (f.get rn) := by
    simp only [effect, value, get_set_self, get_set_of_ne hzn.symm]
  have hfollowing : (f.set rz 0).following = f.following := by
    rw [following, get_set_of_ne hz.symm]
    rfl
  have hflags : (f.set rz 0).setArithFlags .sub 0 (f.get rn) =
      (f.setArithFlags .sub 0 (f.get rn)).set rz 0 := rfl
  have hget : (f.setArithFlags .sub 0 (f.get rn)).get rz = f.get rz := rfl
  rw [perform_putArith _ target hsub hrd, hfollowing, hflags, set_comm _ hz.symm, set_comm _ hzd.symm,
    set_set, ← hget, set_get]
  exact perform_putArith f target rfl hrd

end RegisterFile

namespace Machine

def setting (m : Machine s) (r : Register) (v : s.Word) : Machine s :=
  { m with registers := m.registers.set r v }

/-- A sum with carry is exact, the flags set from a sum or a difference are those of the sum with
carry that it is, and so instructions that differ in nothing else leave the same machine: `ADCS`
with `C` clear and `ADDS`, `SBCS` with `C` set and `SUBS`, `CMP` and `CMN` and what they compute with
the destination restored, and `RSBS` and a subtraction from a register that holds zero. -/
theorem flags_agree (m : Machine s) :
    (∀ (x y : Host.Word) (carry : Bool),
      let sum := s.addWithCarry x.toNat y.toNat carry
      (Host.pack m.registers).addWithCarry? x y carry =
          some (Host.widen sum.result, sum.carry, sum.overflow) ∧
        ExactSum s.bits (x.toNat % 2 ^ s.bits) (y.toNat % 2 ^ s.bits) carry
          (Host.widen sum.result).toNat sum.carry sum.overflow) ∧
    (∀ (op : Arith) (x y : Host.Word),
      let flags := (s.addWithCarry x.toNat (op.addend y).toNat op.carryIn).flags
      (Host.pack m.registers).sumFlags? x (op.addend y) op.carryIn = some flags ∧
        (Host.pack m.registers).setNZCV? op x y (Host.residue s.bits op x y) =
          some (Host.pack (m.registers.setFlags flags)) ∧
        m.registers.setNZCV op x.toNat y.toNat (Host.residue s.bits op x y).toNat =
          m.registers.setFlags flags) ∧
    ∀ rd : Register, rd.isLow = true →
      (∀ op rm, m.registers.flags.c = op.carryIn →
        m.execute (.addCarry op rd rm) = m.execute (.arith op rd rd (.register rm))) ∧
      (∀ rn source, ∃ m', m.execute (.arith .sub rd rn source) = .ok m' ∧
        m.execute (.compare rn source) = .ok (m'.setting rd (m.registers.get rd))) ∧
      (∀ rn rm, ∃ m', m.execute (.arith .add rd rn (.register rm)) = .ok m' ∧
        m.execute (.compareSum rn rm) = .ok (m'.setting rd (m.registers.get rd))) ∧
      ∀ rn rz : Register, rz.isLow = true → rz ≠ rd → rz ≠ rn →
        ∃ m', (m.setting rz 0).execute (.arith .sub rd rz (.register rn)) = .ok m' ∧
          m.execute (.negate rd rn) = .ok (m'.setting rz (m.registers.get rz)) := by
  have hbits := s.sixteen_le_bits
  refine ⟨?_, ?_, ?_⟩
  · intro x y carry
    have hexact := exactSum_addWithCarry (by omega) (Host.narrow s.bits x) (Host.narrow s.bits y) carry
    simp only [Shape.addWithCarry, Host.word_toNat_eq, Host.toNat_widen s.bits_le]
    refine ⟨Host.addWithCarry?_pack m.registers x y carry, ?_⟩
    rwa [Host.toNat_narrow, Host.toNat_narrow] at hexact
  · intro op x y
    have hflags := op.flags_addWithCarry_addend (by omega) (Host.narrow s.bits x)
      (Host.narrow s.bits y)
    simp only [Shape.addWithCarry, Host.word_toNat_eq, Host.narrow_addend, hflags]
    refine ⟨?_, ?_, ?_⟩
    · rw [Host.sumFlags?_pack, Host.narrow_addend, hflags]
    · rw [Host.setNZCV?_pack, Host.narrow_residue]
    · rw [RegisterFile.setNZCV, Host.word_toNat_eq, Host.word_toNat_eq, Host.word_toNat_eq,
        Host.narrow_residue]
  · intro rd hlow
    have hrd := RegisterFile.Register.ne_pc_of_isLow hlow
    have hexecute {i : Instruction} {g : RegisterFile s} (hi : i.label? = none)
        (h : m.registers.perform 0 i = g) : m.execute i = .ok { m with registers := g } := by
      rw [execute, target, hi, ← h]
      rfl
    refine ⟨?_, ?_, ?_, ?_⟩
    · intro op rm hc
      exact hexecute rfl (m.registers.perform_addCarry 0 hrd hc rm)
    · intro rn source
      refine ⟨_, rfl, hexecute rfl ?_⟩
      exact m.registers.set_perform_putArith 0 rfl rfl hrd
    · intro rn rm
      refine ⟨_, rfl, hexecute rfl ?_⟩
      exact m.registers.set_perform_putArith 0 rfl rfl hrd
    · intro rn rz hz hzd hzn
      have hzpc := RegisterFile.Register.ne_pc_of_isLow hz
      refine ⟨_, rfl, hexecute rfl ?_⟩
      exact m.registers.perform_negate 0 hrd hzpc hzd hzn

/-- The least signed number of sixteen bits beside one, with the given carry. -/
def leastBesideOne (c : Bool) : Machine (.architectural .w16) :=
  ((new _).setting .r0 0x8000).setting .r1 1 |>.after (.edit (.flag .c c))

theorem flags_agree_leastBesideOne :
    (∃ m', (leastBesideOne true).execute (.addCarry .sub .r0 .r1) = .ok m' ∧
      (leastBesideOne true).execute (.arith .sub .r0 .r0 (.register .r1)) = .ok m' ∧
      m'.registers.get .r0 = 0x7fff ∧ m'.registers.flags = ⟨false, false, true, true⟩) ∧
    (∃ m', (leastBesideOne false).execute (.addCarry .add .r0 .r0) = .ok m' ∧
      (leastBesideOne false).execute (.arith .add .r0 .r0 (.register .r0)) = .ok m' ∧
      m'.registers.get .r0 = 0 ∧ m'.registers.flags = ⟨false, true, true, true⟩) ∧
    ∃ m', ((leastBesideOne true).setting .r2 0).execute (.arith .sub .r1 .r2 (.register .r0)) =
        .ok m' ∧
      (leastBesideOne true).execute (.negate .r1 .r0) =
        .ok (m'.setting .r2 ((leastBesideOne true).registers.get .r2)) ∧
      m'.registers.get .r1 = 0x8000 ∧ m'.registers.flags = ⟨true, false, false, true⟩ := by
  obtain ⟨-, -, hset⟩ := flags_agree (leastBesideOne true)
  obtain ⟨-, -, hclear⟩ := flags_agree (leastBesideOne false)
  have hsbcs := (hset .r0 rfl).1 .sub .r1 rfl
  have hadcs := (hclear .r0 rfl).1 .add .r0 rfl
  obtain ⟨m', hsubs, hrsbs⟩ := (hset .r1 rfl).2.2.2 .r0 .r2 rfl (by decide) (by decide)
  refine ⟨⟨_, hsbcs, rfl, by decide +kernel, by decide +kernel⟩,
    ⟨_, hadcs, rfl, by decide +kernel, by decide +kernel⟩, m', hsubs, hrsbs, ?_⟩
  obtain rfl := Except.ok.inj hsubs
  exact ⟨by decide +kernel, by decide +kernel⟩

end Machine
end Thumb
