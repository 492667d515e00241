import Thumb.Proofs.ShiftArithmetic

/-! Extensions of fields of a word. A sign extension is the two's complement reading of the field, cut
to the width of a register, whether the field is narrower than the register, wider, or as wide as the
words of the computer. -/
namespace Thumb

section Words

variable {w k : ℕ}

/-- The field is read as a signed number, of which the register keeps the residue. -/
theorem toNat_signExtend_eq (hk : 0 < k) (x : BitVec k) :
    ((x.signExtend w).toNat : ℤ) = signed k x.toNat % 2 ^ w := by
  rw [BitVec.signExtend, natCast_toNat_ofInt, Moving.toInt_eq_signed hk]

/-- A register as wide as the field keeps the signed number itself. -/
theorem signed_signExtend (hk : 0 < k) (hkw : k ≤ w) (x : BitVec k) :
    signed w (x.signExtend w).toNat = signed k x.toNat := by
  rw [← Moving.toInt_eq_signed (hk.trans_le hkw), ← Moving.toInt_eq_signed hk,
    BitVec.toInt_signExtend_of_le hkw]

theorem setWidth_signExtend (hkw : k ≤ w) (x : BitVec k) : (x.signExtend w).setWidth k = x := by
  apply BitVec.eq_of_getLsbD_eq
  intro i hi
  rw [BitVec.getLsbD_setWidth, BitVec.getLsbD_signExtend]
  simp [hi, show i < w by omega]

end Words

namespace Extension

/-- The number `r` is the extension of the field of `v` to `w` bits: with the same signed reading, or
with the same reading without a sign. -/
def Extends (op : Extension) (w v r : ℕ) : Prop :=
  match op with
  | sxtb => signed w r = signed 8 (v % 2 ^ 8)
  | sxth => signed w r = signed 16 (v % 2 ^ 16)
  | uxtb => r = v % 2 ^ 8
  | uxth => r = v % 2 ^ 16

def unsigned : Extension → Extension
  | sxtb | uxtb => uxtb
  | sxth | uxth => uxth

variable {w : ℕ}

theorem extends_eval (hw : 16 ≤ w) (op : Extension) (v : BitVec w) :
    op.Extends w v.toNat (op.eval v).toNat := by
  have hsigned {k : ℕ} (hk : 0 < k) (hkw : k ≤ w) :
      signed w ((v.setWidth k).signExtend w).toNat = signed k (v.toNat % 2 ^ k) := by
    rw [signed_signExtend hk hkw, BitVec.toNat_setWidth]
  have hunsigned {k : ℕ} (hkw : k ≤ w) :
      ((v.setWidth k).setWidth w).toNat = v.toNat % 2 ^ k := by
    rw [BitVec.toNat_setWidth_of_le hkw, BitVec.toNat_setWidth]
  cases op with
  | sxtb => exact hsigned (by decide) (by omega)
  | sxth => exact hsigned (by decide) hw
  | uxtb => exact hunsigned (by omega)
  | uxth => exact hunsigned hw

/-- What an extension does not read can be cleared before it. -/
theorem eval_unsigned (hw : 16 ≤ w) (op : Extension) (v : BitVec w) :
    op.eval (op.unsigned.eval v) = op.eval v := by
  have hfield {k : ℕ} (hk : k ≤ w) : ((v.setWidth k).setWidth w).setWidth k = v.setWidth k := by
    rw [BitVec.setWidth_setWidth_of_le _ hk, BitVec.setWidth_eq]
  cases op with
  | sxtb | uxtb => simp only [eval, unsigned, hfield (show 8 ≤ w by omega)]
  | sxth | uxth => simp only [eval, unsigned, hfield hw]

end Extension

namespace Host

variable {w bits : ℕ}

/-- A field that is wider than the words of the computer is the whole word. -/
theorem signExtend?_eq_min (hw : w ≤ 64) (hpos : 0 < bits) (u : Word) :
    signExtend? u bits (lowMask w) = some (widen ((narrow (min bits 64) u).signExtend w)) := by
  by_cases hbits : bits < 64
  · rw [Nat.min_eq_left (Nat.le_of_lt hbits)]
    exact signExtend?_eq hw hpos hbits u
  · have hall : (narrow 64 u).signExtend w = narrow w u := by
      rw [BitVec.signExtend_eq_setWidth_of_le _ hw]
      exact BitVec.setWidth_setWidth_of_le u hw
    rw [Nat.min_eq_right (by omega), hall, signExtend?, if_neg hbits, and_lowMask]

/-- A second extension finds the field as it was, or a register that is narrower than the field and
has no sign to repeat. -/
theorem signExtend_narrow_widen (hw : w ≤ 64) (u : Word) :
    (narrow bits (widen ((narrow bits u).signExtend w))).signExtend w =
      (narrow bits u).signExtend w := by
  by_cases hle : bits ≤ w
  · rw [narrow_widen_of_le hle hw, setWidth_signExtend hle]
  · have hcut (u : Word) : (narrow bits u).signExtend w = narrow w u := by
      rw [BitVec.signExtend_eq_setWidth_of_le _ (by omega)]
      exact BitVec.setWidth_setWidth_of_le u (by omega)
    rw [hcut, hcut, narrow_widen hw]

variable {s : Shape}

theorem Bank.signExtend?_pack (f : RegisterFile s) (hpos : 0 < bits) (u : Word) :
    (pack f).signExtend? u bits =
      some (widen ((narrow (min bits 64) u).signExtend s.bits)) := by
  rw [Bank.signExtend?, mask?_pack]
  exact signExtend?_eq_min s.bits_le hpos u

theorem Bank.signExtend?_pack_zero (f : RegisterFile s) (u : Word) :
    (pack f).signExtend? u 0 = none := by
  rw [Bank.signExtend?, mask?_pack]
  rfl

end Host

variable {s : Shape}

namespace Machine

/-- The instruction succeeds, also where the machine is changed in place, puts a word into a register
and leaves the flags. -/
structure Puts (m : Machine s) (i : Instruction) (rd : Register) (v : s.Word) (m' : Machine s) :
    Prop where
  execute_eq : m.execute i = .ok m'
  embed_eq : (Host.embed m).execute i = some (.ok (), Host.embed m')
  get_eq : m'.registers.get rd = v
  flags_eq : m'.registers.flags = m.registers.flags

theorem exists_puts (m : Machine s) {i : Instruction} {rd : Register} {v : s.Word}
    (hl : i.label? = none) (he : m.registers.effect 0 i = m.registers.put rd v) :
    ∃ m', m.Puts i rd v m' := by
  have hx := m.execute_eq_of_label?_eq_none hl
  refine ⟨_, hx, ?_, RegisterFile.get_perform_of_put he, ?_⟩
  · rw [Host.execute_embed, hx]
  · rw [RegisterFile.flags_perform, he]
    exact m.registers.flags_put rd v

theorem exists_puts_extend (m : Machine s) (op : Extension) (rd rm : Register) :
    ∃ m', m.Puts (.extend op rd rm) rd (op.eval (m.registers.get rm)) m' := m.exists_puts rfl rfl

/-- Extensions are those of two's complement. The lowest bits of a word of the computer, any number of
them from one on, are read as a signed number, all bits of the word if there are not as many, and the
residue of that number fills a register; the other bits do not count, and extending the same number of
bits again changes nothing. The instructions put into their destination what has, in the width of a
register, the reading that the lowest byte or halfword of their source has, with or without a sign;
they leave the flags, and clearing the bits that an extension does not read makes no difference to
it. -/
theorem extensions_are_exact (m : Machine s) :
    (∀ (u : Host.Word) (bits : ℕ), 1 ≤ bits →
      ∃ r, (Host.pack m.registers).signExtend? u bits = some r ∧
        (r.toNat : ℤ) = signed (min bits 64) (u.toNat % 2 ^ min bits 64) % 2 ^ s.bits ∧
        r = Host.widen (s.signExtend u.toNat bits) ∧
        (∀ u' : Host.Word, u'.toNat % 2 ^ min bits 64 = u.toNat % 2 ^ min bits 64 →
          (Host.pack m.registers).signExtend? u' bits = some r) ∧
        (Host.pack m.registers).signExtend? r bits = some r) ∧
    (∀ op rd rm, ∃ v m', m.Puts (.extend op rd rm) rd v m' ∧
      op.Extends s.bits (m.registers.get rm).toNat v.toNat) ∧
    ∀ op rd rt rm, ∃ u v m₁ m₂ m', m.Puts (.extend op.unsigned rt rm) rt u m₁ ∧
      m₁.Puts (.extend op rd rt) rd v m₂ ∧ m.Puts (.extend op rd rm) rd v m' := by
  have hwide := s.sixteen_le_bits
  refine ⟨?_, ?_, ?_⟩
  · intro u bits hpos
    have hextend (u : Host.Word) := Host.Bank.signExtend?_pack m.registers hpos u
    refine ⟨_, hextend u, ?_, ?_, ?_, ?_⟩
    · rw [Host.toNat_widen s.bits_le, toNat_signExtend_eq (by omega), Host.toNat_narrow]
    · rw [Shape.signExtend, Thumb.signExtend, BitVec.ofNat_toNat]
      rfl
    · intro u' hfield
      have hsame : Host.narrow (min bits 64) u' = Host.narrow (min bits 64) u := by
        apply BitVec.eq_of_toNat_eq
        rw [Host.toNat_narrow, Host.toNat_narrow, hfield]
      rw [hextend, hsame]
    · rw [hextend, Host.signExtend_narrow_widen s.bits_le]
  · intro op rd rm
    obtain ⟨m', hm'⟩ := m.exists_puts_extend op rd rm
    exact ⟨_, m', hm', op.extends_eval hwide _⟩
  · intro op rd rt rm
    obtain ⟨m₁, hm₁⟩ := m.exists_puts_extend op.unsigned rt rm
    obtain ⟨m₂, hm₂⟩ := m₁.exists_puts_extend op rd rt
    obtain ⟨m', hm'⟩ := m.exists_puts_extend op rd rm
    rw [hm₁.get_eq, op.eval_unsigned hwide] at hm₂
    exact ⟨_, _, m₁, m₂, m', hm₁, hm₂, hm'⟩

/-- A machine of sixteen bits with the least signed byte in `R0`, below bits that do not count. -/
def leastByte : Machine (.architectural .w16) := (new _).after (.edit (.named "R0" 0x7f80))

theorem extensions_are_exact_leastByte : 1 ≤ 17 ∧
    (∃ r, (Host.pack leastByte.registers).signExtend? 0xf00018001 17 = some r ∧ r.toNat = 0x8001 ∧
      (Host.pack leastByte.registers).signExtend? 0x18001 17 = some r ∧
      (Host.pack leastByte.registers).signExtend? r 17 = some r) ∧
    ∃ v m', leastByte.Puts (.extend .sxtb .r1 .r0) .r1 v m' ∧ signed 16 v.toNat = -128 := by
  have hpos : 1 ≤ 17 := by decide
  obtain ⟨hword, hput, -⟩ := extensions_are_exact leastByte
  obtain ⟨r, hr, hnumber, -, hfield, hagain⟩ := hword 0xf00018001 17 hpos
  obtain ⟨v, m', hm', hextends⟩ := hput .sxtb .r1 .r0
  have hvalue : signed (min 17 64) ((0xf00018001 : Host.Word).toNat % 2 ^ min 17 64) %
      2 ^ (Shape.architectural .w16).bits = 0x8001 := by decide +kernel
  have hsource : (leastByte.registers.get .r0).toNat = 0x7f80 := by decide +kernel
  have hbyte : signed 8 (0x7f80 % 2 ^ 8) = -128 := by decide +kernel
  rw [hsource] at hextends
  refine ⟨hpos, ⟨r, hr, ?_, hfield 0x18001 (by decide +kernel), hagain⟩, v, m', hm', ?_⟩
  · exact Int.natCast_inj.mp (hnumber.trans hvalue)
  · exact hextends.trans hbyte

end Machine
end Thumb
