import Mathlib.Data.Int.Bitwise
import Thumb.Proofs.Frame
import Thumb.Proofs.Host.Histories

/-! Shifts and rotates as integer arithmetic. Below, at and above the width of a register each is a
product or a quotient by a power of two, or moves every bit round by the amount, and in each case it
is that many moves by one bit. -/
namespace Thumb

inductive Moving
  | shift (op : Shift)
  /-- Rotation to the right. -/
  | rotate

namespace Moving

/-- The number `r` and the last bit moved out are those of moving `v` by `n`, where `v` is below
`2 ^ w` and the arithmetic shift reads it in two's complement. -/
def Exact (k : Moving) (w v n r : ℕ) (lost : Option Bool) : Prop :=
  if n = 0 then r = v ∧ lost = none
  else match k with
    | shift .lsl => r = v * 2 ^ n % 2 ^ w ∧ lost = some ((v * 2 ^ n).testBit w)
    | shift .lsr => r = v / 2 ^ n ∧ lost = some (v.testBit (n - 1))
    | shift .asr =>
      (r : ℤ) = signed w v / 2 ^ n % 2 ^ w ∧ lost = some ((signed w v).testBit (n - 1))
    | rotate =>
      r < 2 ^ w ∧ (∀ i < w, r.testBit i = v.testBit ((i + n) % w)) ∧ lost = some (r.testBit (w - 1))

section Words

variable {w : ℕ}

def eval (k : Moving) (v : BitVec w) (n : ℕ) : Shifted w :=
  match k with
  | shift op => op.eval v n
  | rotate => rotateRight v n

/-- The moved word; no amount needs a case of its own. -/
def value (k : Moving) (v : BitVec w) (n : ℕ) : BitVec w :=
  match k with
  | shift .lsl => v <<< n
  | shift .lsr => v >>> n
  | shift .asr => v.sshiftRight n
  | rotate => v.rotateRight n

/-- The bit moved out last when something is moved. -/
def lost (k : Moving) (v : BitVec w) (n : ℕ) : Bool :=
  match k with
  | shift .lsl => decide (n ≤ w) && v.getLsbD (w - n)
  | shift .lsr => v.getLsbD (n - 1)
  | shift .asr => v.getLsbD (min n w - 1)
  | rotate => (v.rotateRight n).msb

theorem sshiftRight_min (v : BitVec w) (n : ℕ) : v.sshiftRight (min n w) = v.sshiftRight n := by
  apply BitVec.eq_of_getLsbD_eq
  intro i hi
  rw [BitVec.getLsbD_sshiftRight, BitVec.getLsbD_sshiftRight]
  by_cases hn : n ≤ w
  · rw [Nat.min_eq_left hn]
  · rw [Nat.min_eq_right (by omega), if_neg (by omega), if_neg (by omega)]

theorem value_zero (k : Moving) (v : BitVec w) : k.value v 0 = v := by
  rcases k with (_ | _ | _) | _
  · exact BitVec.shiftLeft_zero v
  · exact BitVec.ushiftRight_zero v
  · exact BitVec.sshiftRight_zero
  · exact Host.rotateRight_by_zero v

theorem eval_eq (k : Moving) (v : BitVec w) (n : ℕ) :
    k.eval v n = ⟨k.value v n, if n = 0 then none else some (k.lost v n)⟩ := by
  by_cases hn : n = 0
  · subst hn
    rw [value_zero]
    rcases k with (_ | _ | _) | _ <;> rfl
  · rw [if_neg hn]
    rcases k with (_ | _ | _) | _
    · by_cases hle : n ≤ w
      · simp [eval, Shift.eval, value, lost, hn, hle]
      · simp [eval, Shift.eval, value, lost, hn, hle, BitVec.shiftLeft_eq_zero (show w ≤ n by omega)]
    · by_cases hle : n ≤ w
      · simp [eval, Shift.eval, value, lost, hn, hle]
      · simp [eval, Shift.eval, value, lost, hn, hle, BitVec.ushiftRight_eq_zero (show w ≤ n by omega),
          BitVec.getLsbD_of_ge v (n - 1) (by omega)]
    · simp [eval, Shift.eval, value, lost, hn, sshiftRight_min]
    · simp [eval, rotateRight, value, lost, hn]

theorem getLsbD_rotateRight_eq (hw : 0 < w) (v : BitVec w) (n i : ℕ) :
    (v.rotateRight n).getLsbD i = (decide (i < w) && v.getLsbD ((i + n) % w)) := by
  have hn := Nat.mod_lt n hw
  rw [BitVec.getLsbD_rotateRight, Nat.add_mod]
  by_cases hi : i < w
  · rw [Nat.mod_eq_of_lt hi]
    by_cases hlow : i < w - n % w
    · rw [Nat.mod_eq_of_lt (show i + n % w < w by omega)]
      simp [hi, hlow, Nat.add_comm]
    · have hwrap : (i + n % w) % w = i - (w - n % w) := by
        rw [Nat.mod_eq_sub_mod (by omega), Nat.mod_eq_of_lt (by omega)]
        omega
      rw [hwrap]
      simp [hi, hlow]
  · simp [hi, show ¬i < w - n % w by omega]

theorem value_succ (hw : 0 < w) (k : Moving) (v : BitVec w) (n : ℕ) :
    k.value (k.value v n) 1 = k.value v (n + 1) := by
  rcases k with (_ | _ | _) | _
  · exact (BitVec.shiftLeft_add v n 1).symm
  · exact (BitVec.shiftRight_add v n 1).symm
  · exact BitVec.sshiftRight_add.symm
  · apply BitVec.eq_of_getLsbD_eq
    intro i hi
    simp only [value, getLsbD_rotateRight_eq hw, hi, Nat.mod_lt _ hw, decide_true, Bool.true_and,
      Nat.mod_add_mod, Nat.add_right_comm i 1 n, Nat.add_assoc]

/-- The bit that the last of the moves by one bit moves out. -/
theorem lost_succ (hw : 0 < w) (k : Moving) (v : BitVec w) (n : ℕ) :
    k.lost (k.value v n) 1 = k.lost v (n + 1) := by
  rcases k with (_ | _ | _) | _
  · have hwidth : 1 ≤ w := hw
    simp only [lost, value, BitVec.getLsbD_shiftLeft, hwidth, decide_true, Bool.true_and]
    by_cases hn : n + 1 ≤ w
    · simp [hn, show ¬w - 1 < n by omega, show w - 1 - n = w - (n + 1) by omega, hw]
    · simp [hn, show w - 1 < n by omega]
  · simp [lost, value, BitVec.getLsbD_ushiftRight]
  · simp only [lost, value, BitVec.getLsbD_sshiftRight, show min 1 w - 1 = 0 by omega, Nat.add_zero,
      show ¬w ≤ 0 by omega, decide_false, Bool.not_false, Bool.true_and]
    split
    · next hn =>
      rw [Nat.min_eq_left hn]
      rfl
    · next hn => rw [Nat.min_eq_right (by omega), BitVec.msb_eq_getLsbD_last]
  · exact congrArg BitVec.msb (value_succ hw .rotate v n)

/-- Moving by an amount is moving by one bit as many times. -/
theorem eval_eq_iterate (hw : 0 < w) (k : Moving) (v : BitVec w) (n : ℕ) :
    (fun x => k.eval x.value 1)^[n] ⟨v, none⟩ = k.eval v n := by
  induction n with
  | zero =>
    rw [eval_eq, value_zero]
    rfl
  | succ n ih =>
    rw [Function.iterate_succ_apply', ih, eval_eq, eval_eq, eval_eq, value_succ hw, lost_succ hw]
    rfl

theorem testBit_signed (hw : 0 < w) (v : BitVec w) (i : ℕ) :
    (signed w v.toNat).testBit i = v.getLsbD (min i (w - 1)) := by
  have hv := v.isLt
  have hpow := two_pow_eq hw
  rw [signed_eq]
  split
  · next hlow =>
    have hmsb : v.getLsbD (w - 1) = false := Nat.testBit_lt_two_pow hlow
    change v.toNat.testBit i = _
    by_cases hi : i ≤ w - 1
    · rw [Nat.min_eq_left hi]
      rfl
    · rw [Nat.min_eq_right (by omega), hmsb]
      exact BitVec.getLsbD_of_ge v i (by omega)
  · next hhigh =>
    have hmsb : v.getLsbD (w - 1) = true := by
      rw [← BitVec.msb_eq_getLsbD_last, BitVec.msb_eq_decide, decide_eq_true_iff]
      omega
    have hneg : (v.toNat : ℤ) - (2 ^ w : ℕ) = Int.negSucc (2 ^ w - (v.toNat + 1)) := by omega
    rw [hneg]
    change (!(2 ^ w - (v.toNat + 1)).testBit i) = _
    rw [Nat.testBit_two_pow_sub_succ hv]
    by_cases hi : i ≤ w - 1
    · rw [Nat.min_eq_left hi, decide_eq_true (by omega), Bool.true_and, Bool.not_not]
      rfl
    · rw [Nat.min_eq_right (by omega), hmsb, decide_eq_false (by omega)]
      rfl

theorem toInt_eq_signed (hw : 0 < w) (v : BitVec w) : v.toInt = signed w v.toNat := by
  have hpow := two_pow_eq hw
  rw [BitVec.toInt_eq_toNat_cond, signed_eq]
  split <;> split <;> omega

theorem toNat_eq_toInt_emod (v : BitVec w) : (v.toNat : ℤ) = v.toInt % 2 ^ w := by
  rw [← natCast_toNat_ofInt, BitVec.ofInt_toInt]

/-- At every amount the moved word and the lost bit are what integer arithmetic says. -/
theorem exact_eval (hw : 0 < w) (k : Moving) (v : BitVec w) (n : ℕ) :
    k.Exact w v.toNat n (k.eval v n).value.toNat (k.eval v n).carry := by
  rw [eval_eq]
  unfold Exact
  split
  · next hn =>
    subst hn
    rw [value_zero]
    exact ⟨rfl, rfl⟩
  · next hn =>
    rcases k with (_ | _ | _) | _
    · refine ⟨?_, ?_⟩
      · simp [value, BitVec.toNat_shiftLeft, Nat.shiftLeft_eq]
      · rw [Nat.testBit_mul_two_pow]
        rfl
    · refine ⟨?_, rfl⟩
      simp [value, Nat.shiftRight_eq_div_pow]
    · refine ⟨?_, ?_⟩
      · dsimp only [value]
        rw [toNat_eq_toInt_emod, BitVec.toInt_sshiftRight, toInt_eq_signed hw,
          Int.shiftRight_eq_div_pow, Nat.cast_pow]
        rfl
      · rw [testBit_signed hw, show min (n - 1) (w - 1) = min n w - 1 by omega]
        rfl
    · refine ⟨BitVec.isLt _, ?_, ?_⟩
      · intro i hi
        have hbit := getLsbD_rotateRight_eq hw v n i
        rw [decide_eq_true hi, Bool.true_and] at hbit
        exact hbit
      · rw [← BitVec.getLsbD, ← BitVec.msb_eq_getLsbD_last]
        rfl

end Words
end Moving

namespace Host

def move? (k : Moving) (v : Word) (amount width : ℕ) (mask : Word) : Option (Word × Option Bool) :=
  match k with
  | .shift op => shift? op v amount width mask
  | .rotate => ror? v amount width mask

/-- A word moved by one bit, as often as is said; the last bit moved out comes with it. -/
def moveBits? (k : Moving) (v : Word) (count width : ℕ) (mask : Word) :
    Option (Word × Option Bool) :=
  (fun moved => moved.bind fun (u, _) => move? k u 1 width mask)^[count] (some (v, none))

variable {w : ℕ}

theorem move?_widen (hw : w ≤ 64) (hpos : 0 < w) (k : Moving) (v : BitVec w) (n : ℕ) :
    move? k (widen v) n w (lowMask w) = some (widen (k.eval v n).value, (k.eval v n).carry) := by
  cases k with
  | shift op => exact shift?_widen op hw hpos v n
  | rotate => exact ror?_widen hw hpos v n

theorem moveBits?_widen (hw : w ≤ 64) (hpos : 0 < w) (k : Moving) (v : BitVec w) (n : ℕ) :
    moveBits? k (widen v) n w (lowMask w) = some (widen (k.eval v n).value, (k.eval v n).carry) := by
  rw [← k.eval_eq_iterate hpos, moveBits?]
  induction n with
  | zero => rfl
  | succ n ih =>
    rw [Function.iterate_succ_apply', Function.iterate_succ_apply', ih]
    exact move?_widen hw hpos k _ 1

end Host

variable {s : Shape}

/-- From one machine to the next a register receives a word moved by an amount, and `C` the last bit
moved out, if any is. -/
def Moving.Stores (k : Moving) (m m' : Machine s) (rd : Register) (v : s.Word) (n : ℕ) : Prop :=
  ∃ r lost, k.Exact s.bits v.toNat n r lost ∧ (m'.registers.get rd).toNat = r ∧
    m'.registers.flags.c = lost.getD m.registers.flags.c

theorem RegisterFile.lowByte_eq (f : RegisterFile s) (r : Register) :
    f.lowByte r = (f.get r).toNat % 256 := BitVec.toNat_setWidth 8 (f.get r)

namespace Machine

/-- Whatever the amount, a shift or a rotation of what a register can hold is what integer
arithmetic says and what as many moves by one bit come to, and the instructions store it. -/
theorem shifts_are_exact (m : Machine s) :
    (∀ (k : Moving) (u : Host.Word) (n : ℕ), u.toNat < 2 ^ s.bits →
      ∃ r lost, Host.move? k u n s.bits (Host.lowMask s.bits) = some (r, lost) ∧
        k.Exact s.bits u.toNat n r.toNat lost ∧
        Host.moveBits? k u n s.bits (Host.lowMask s.bits) = some (r, lost)) ∧
    (∀ op rd rm n, ∃ m', m.execute (.shift op rd rm n) = .ok m' ∧
      (Moving.shift op).Stores m m' rd (m.registers.get rm) n) ∧
    (∀ op rdn rm, ∃ m', m.execute (.shiftBy op rdn rm) = .ok m' ∧
      (Moving.shift op).Stores m m' rdn (m.registers.get rdn) ((m.registers.get rm).toNat % 256)) ∧
    ∀ rdn rm, ∃ m', m.execute (.rotateBy rdn rm) = .ok m' ∧
      Moving.rotate.Stores m m' rdn (m.registers.get rdn) ((m.registers.get rm).toNat % 256) := by
  have hbits := s.sixteen_le_bits
  have hpos : 0 < s.bits := by omega
  have hstores {i : Instruction} {k : Moving} {rd : Register} {v : s.Word} {n : ℕ}
      (hi : m.registers.effect 0 i = m.registers.putShifted rd (k.eval v n)) :
      k.Stores m { m with registers := m.registers.perform 0 i } rd v n := by
    refine ⟨_, _, k.exact_eval hpos v n, ?_, ?_⟩
    · exact congrArg BitVec.toNat (RegisterFile.get_perform_of_put hi)
    · rw [RegisterFile.flags_perform, hi]
      exact congrArg Flags.c (RegisterFile.flags_put _ _ _)
  refine ⟨?_, ?_, ?_, ?_⟩
  · intro k u n hu
    have hnarrow : (Host.narrow s.bits u).toNat = u.toNat := by
      rw [Host.toNat_narrow, Nat.mod_eq_of_lt hu]
    have hwiden : Host.widen (Host.narrow s.bits u) = u :=
      BitVec.eq_of_toNat_eq ((Host.toNat_widen s.bits_le _).trans hnarrow)
    have hmove := Host.move?_widen s.bits_le hpos k (Host.narrow s.bits u) n
    have hbits := Host.moveBits?_widen s.bits_le hpos k (Host.narrow s.bits u) n
    have hexact := k.exact_eval hpos (Host.narrow s.bits u) n
    rw [hwiden] at hmove hbits
    rw [hnarrow] at hexact
    refine ⟨_, _, hmove, ?_, hbits⟩
    rwa [Host.toNat_widen s.bits_le]
  · intro op rd rm n
    exact ⟨_, rfl, hstores (k := .shift op) rfl⟩
  · intro op rdn rm
    rw [← RegisterFile.lowByte_eq]
    exact ⟨_, rfl, hstores (k := .shift op) rfl⟩
  · intro rdn rm
    rw [← RegisterFile.lowByte_eq]
    exact ⟨_, rfl, hstores (k := .rotate) rfl⟩

/-- The least signed number of 48 bits, beside an amount whose low byte is far beyond them. -/
def shiftingFar : Machine (.architectural .w48) :=
  (new _).afterAll [.edit (.named "R0" 0x800000000000), .edit (.named "R1" 0x1ff)]

theorem shifts_are_exact_far :
    (∃ r lost, Host.move? (.shift .asr) 0x800000000000 255 48 (Host.lowMask 48) = some (r, lost) ∧
      r.toNat = 0xffffffffffff ∧ lost = some true) ∧
    ∃ m', shiftingFar.execute (.shiftBy .asr .r0 .r1) = .ok m' ∧
      (m'.registers.get .r0).toNat = 0xffffffffffff ∧ m'.registers.flags.c = true := by
  have hvalue : signed 48 0x800000000000 / 2 ^ 255 % 2 ^ 48 = 0xffffffffffff := by decide +kernel
  have hlost : (signed 48 0x800000000000).testBit 254 = true := by decide +kernel
  obtain ⟨hmove, -, hexecute, -⟩ := shifts_are_exact shiftingFar
  refine ⟨?_, ?_⟩
  · obtain ⟨r, lost, hr, ⟨hnumber, hbit⟩, -⟩ := hmove (.shift .asr) 0x800000000000 255 (by decide)
    refine ⟨r, lost, hr, ?_, hbit.trans (congrArg some hlost)⟩
    exact Int.natCast_inj.mp (hnumber.trans hvalue)
  · obtain ⟨m', hm', r, lost, hexact, hget, hc⟩ := hexecute .asr .r0 .r1
    have hv : (shiftingFar.registers.get .r0).toNat = 0x800000000000 := by decide +kernel
    have hn : (shiftingFar.registers.get .r1).toNat % 256 = 255 := by decide +kernel
    rw [hv, hn] at hexact
    obtain ⟨hnumber, hbit⟩ := hexact
    refine ⟨m', hm', ?_, ?_⟩
    · rw [hget]
      exact Int.natCast_inj.mp (hnumber.trans hvalue)
    · rw [hc, hbit]
      exact hlost

end Machine
end Thumb
