import Mathlib.Data.BitVec
import Thumb.Host.Word
import Thumb.RegisterFile

/-! Registers of up to 64 bits in words of 64: each operation on the words, masked where it has to be,
is the operation on the registers, and the computer never traps on it. -/
namespace Thumb
namespace Host

/-- The word that holds a register. -/
def widen {w : ℕ} (v : BitVec w) : Word := v.setWidth 64

def narrow (w : ℕ) (u : Word) : BitVec w := u.setWidth w

def lowMask (w : ℕ) : Word := widen (BitVec.allOnes w)

section Registers

variable {w : ℕ}

theorem and_lowMask (u : Word) : u &&& lowMask w = widen (narrow w u) :=
  (setWidth_setWidth_eq_and u).symm

theorem getLsbD_widen (hw : w ≤ 64) (v : BitVec w) (i : ℕ) : (widen v).getLsbD i = v.getLsbD i := by
  rw [widen, BitVec.getLsbD_setWidth]
  by_cases hi : i < 64
  · simp [hi]
  · simp [hi, BitVec.getLsbD_of_ge v i (by omega)]

theorem getLsbD_narrow (u : Word) (i : ℕ) :
    (narrow w u).getLsbD i = (decide (i < w) && u.getLsbD i) := BitVec.getLsbD_setWidth w u i

@[simp] theorem narrow_widen (hw : w ≤ 64) (v : BitVec w) : narrow w (widen v) = v := by
  rw [narrow, widen, BitVec.setWidth_setWidth_of_le v hw, BitVec.setWidth_eq]

theorem widen_narrow {u : Word} (h : u.toNat < 2 ^ w) : widen (narrow w u) = u := by
  apply BitVec.eq_of_toNat_eq
  rw [widen, narrow, BitVec.toNat_setWidth, BitVec.toNat_setWidth, Nat.mod_eq_of_lt h,
    Nat.mod_eq_of_lt u.isLt]

theorem byte_mask : (0xff : Word) = lowMask 8 := by decide

theorem halfword_mask : (0xffff : Word) = lowMask 16 := by decide

@[simp] theorem widen_zero : widen 0#w = 0#64 := BitVec.setWidth_zero 64 w

theorem widen_inj (hw : w ≤ 64) {v v' : BitVec w} : widen v = widen v' ↔ v = v' := by
  constructor
  · intro h
    rw [← narrow_widen hw v, h, narrow_widen hw v']
  · rintro rfl
    rfl

theorem widen_setWidth {k : ℕ} (hk : k ≤ w) (hw : w ≤ 64) (v : BitVec k) :
    widen (v.setWidth w) = widen v := by
  apply BitVec.eq_of_getLsbD_eq
  intro i hi
  rw [getLsbD_widen hw, getLsbD_widen (hk.trans hw), BitVec.getLsbD_setWidth]
  by_cases hiw : i < w
  · simp [hiw]
  · simp [hiw, BitVec.getLsbD_of_ge v i (by omega)]

theorem setWidth_narrow {k : ℕ} (hk : k ≤ w) (u : Word) : (narrow w u).setWidth k = narrow k u :=
  BitVec.setWidth_setWidth_of_le u hk

theorem narrow_widen_of_le {k : ℕ} (hk : k ≤ w) (hw : w ≤ 64) (v : BitVec w) :
    narrow k (widen v) = v.setWidth k := by
  rw [← setWidth_narrow hk, narrow_widen hw]

theorem narrow_and_lowMask {k : ℕ} (hk : k ≤ w) (hw : w ≤ 64) (v : BitVec w) :
    narrow w (widen v &&& lowMask k) = (v.setWidth k).setWidth w := by
  rw [and_lowMask, narrow_widen_of_le hk hw, ← widen_setWidth hk hw, narrow_widen hw]

theorem and_widen (hw : w ≤ 64) (u : Word) (v : BitVec w) :
    u &&& widen v = widen (narrow w u &&& v) := by
  apply BitVec.eq_of_getLsbD_eq
  intro i hi
  rw [BitVec.getLsbD_and, getLsbD_widen hw, getLsbD_widen hw, BitVec.getLsbD_and, getLsbD_narrow]
  by_cases hiw : i < w
  · simp [hiw]
  · simp [BitVec.getLsbD_of_ge v i (by omega)]

@[simp] theorem narrow_lowMask (hw : w ≤ 64) : narrow w (lowMask w) = BitVec.allOnes w :=
  narrow_widen hw _

@[simp] theorem narrow_add (hw : w ≤ 64) (u v : Word) : narrow w (u + v) = narrow w u + narrow w v :=
  BitVec.setWidth_add u v hw

@[simp] theorem narrow_mul (hw : w ≤ 64) (u v : Word) : narrow w (u * v) = narrow w u * narrow w v :=
  BitVec.setWidth_mul u v hw

@[simp] theorem narrow_sub (hw : w ≤ 64) (u v : Word) : narrow w (u - v) = narrow w u - narrow w v := by
  rw [BitVec.sub_eq_add_neg, BitVec.sub_eq_add_neg, narrow_add hw]
  exact congrArg _ (BitVec.setWidth_neg_of_le hw)

@[simp] theorem narrow_not (hw : w ≤ 64) (u : Word) : narrow w (~~~u) = ~~~narrow w u :=
  BitVec.setWidth_not hw

@[simp] theorem narrow_and (u v : Word) : narrow w (u &&& v) = narrow w u &&& narrow w v :=
  BitVec.setWidth_and

@[simp] theorem narrow_or (u v : Word) : narrow w (u ||| v) = narrow w u ||| narrow w v :=
  BitVec.setWidth_or

@[simp] theorem narrow_xor (u v : Word) : narrow w (u ^^^ v) = narrow w u ^^^ narrow w v :=
  BitVec.setWidth_xor

@[simp] theorem narrow_ofNat (hw : w ≤ 64) (n : ℕ) : narrow w (BitVec.ofNat 64 n) = BitVec.ofNat w n :=
  BitVec.setWidth_ofNat_of_le hw n

theorem toNat_widen (hw : w ≤ 64) (v : BitVec w) : (widen v).toNat = v.toNat := by
  rw [widen, BitVec.toNat_setWidth]
  exact Nat.mod_eq_of_lt (lt_of_lt_of_le v.isLt (Nat.pow_le_pow_right (by decide) hw))

theorem toNat_narrow (u : Word) : (narrow w u).toNat = u.toNat % 2 ^ w := BitVec.toNat_setWidth w u

theorem word_toNat_eq {s : Shape} (u : Word) : s.word u.toNat = narrow s.bits u :=
  BitVec.ofNat_toNat _ _

end Registers

section Checked

theorem minus?_of_le {a b : ℕ} (h : b ≤ a) : minus? a b = some (a - b) := if_pos h

theorem shiftLeft?_of_lt {n : ℕ} (h : n < 64) (v : Word) : shiftLeft? v n = some (v <<< n) :=
  if_pos h

theorem shiftRight?_of_lt {n : ℕ} (h : n < 64) (v : Word) : shiftRight? v n = some (v >>> n) :=
  if_pos h

theorem signedShiftRight?_of_lt {n : ℕ} (h : n < 64) (v : Word) :
    signedShiftRight? v n = some (v.sshiftRight n) := if_pos h

theorem count?_of_lt {n : ℕ} (h : n < 4294967296) : count? n = some n := if_pos h

theorem and_one_ne_zero (u : Word) : (u &&& 1 != 0) = u.getLsbD 0 := by
  have h : u &&& 1 = (BitVec.ofBool (u.getLsbD 0)).setWidth 64 :=
    BitVec.and_one_eq_setWidth_ofBool_getLsbD
  rw [h]
  cases u.getLsbD 0 <;> rfl

theorem bit?_of_lt {n : ℕ} (h : n < 64) (v : Word) : bit? v n = some (v.getLsbD n) := by
  rw [bit?, shiftRight?_of_lt h]
  change some ((v >>> n) &&& 1 != 0) = _
  rw [and_one_ne_zero, BitVec.getLsbD_ushiftRight, Nat.add_zero]

theorem lowBits?_of_lt {n : ℕ} (h : n < 64) : lowBits? n = some (lowMask n) := by
  have hpow : 2 ^ n < 2 ^ 64 := Nat.pow_lt_pow_right (by decide) h
  have hpos : 0 < 2 ^ n := Nat.two_pow_pos n
  have hshift : ((1 : Word) <<< n).toNat = 2 ^ n := by
    rw [BitVec.toNat_shiftLeft, Nat.shiftLeft_eq]
    change 1 * 2 ^ n % 2 ^ 64 = 2 ^ n
    rw [Nat.one_mul, Nat.mod_eq_of_lt hpow]
  have hne : (1 : Word) <<< n ≠ 0 := by
    intro hzero
    rw [hzero] at hshift
    exact absurd hshift (Nat.ne_of_lt hpos)
  rw [lowBits?, shiftLeft?_of_lt h]
  change (if (1 : Word) <<< n = 0 then none else some ((1 : Word) <<< n - 1)) = _
  rw [if_neg hne]
  congr 1
  apply BitVec.eq_of_toNat_eq
  rw [lowMask, toNat_widen (Nat.le_of_lt h), BitVec.toNat_allOnes, BitVec.toNat_sub, hshift]
  change (2 ^ 64 - 1 + 2 ^ n) % 2 ^ 64 = 2 ^ n - 1
  omega

end Checked

section Shifts

variable {w : ℕ}

theorem lsl?_eq (hw : w ≤ 64) (u mask : Word) (n : ℕ) :
    lsl? u n w mask = some (if n = 0 then (u, none)
      else if n < w then (u <<< n &&& mask, some (u.getLsbD (w - n)))
      else if n = w then (0, some (u.getLsbD 0)) else (0, some false)) := by
  unfold lsl?
  split
  · rfl
  · split
    · next hlt =>
      rw [minus?_of_le (Nat.le_of_lt hlt)]
      simp only [Option.bind_eq_bind, Option.bind_some, bit?_of_lt (show w - n < 64 by omega),
        shiftLeft?_of_lt (show n < 64 by omega)]
      rfl
    · split
      · rw [and_one_ne_zero]
      · rfl

theorem lsr?_eq (hw : w ≤ 64) (u : Word) (n : ℕ) :
    lsr? u n w = some (if n = 0 then (u, none)
      else if n < w then (u >>> n, some (u.getLsbD (n - 1)))
      else if n = w then (0, some (u.getLsbD (w - 1))) else (0, some false)) := by
  unfold lsr?
  split
  · rfl
  · split
    · rw [minus?_of_le (by omega)]
      simp only [Option.bind_eq_bind, Option.bind_some, bit?_of_lt (show n - 1 < 64 by omega),
        shiftRight?_of_lt (show n < 64 by omega)]
      rfl
    · split
      · rw [minus?_of_le (by omega)]
        simp only [Option.bind_eq_bind, Option.bind_some, bit?_of_lt (show w - 1 < 64 by omega)]
        rfl
      · rfl

theorem asr?_eq (hw : w ≤ 64) (hpos : 0 < w) (u mask : Word) (n : ℕ) :
    asr? u n w mask = some (if n = 0 then (u, none)
      else if w ≤ n then if u.getLsbD (w - 1) then (mask, some true) else (0, some false)
      else (((u <<< (64 - w)).sshiftRight (64 - w)).sshiftRight n &&& mask,
        some (u.getLsbD (n - 1)))) := by
  unfold asr?
  rw [minus?_of_le hpos]
  simp only [Option.bind_eq_bind, Option.bind_some, bit?_of_lt (show w - 1 < 64 by omega)]
  split
  · rfl
  · split
    · rfl
    · rw [minus?_of_le hw, minus?_of_le (by omega)]
      simp only [Option.bind_some, shiftLeft?_of_lt (show 64 - w < 64 by omega),
        signedShiftRight?_of_lt (show 64 - w < 64 by omega),
        signedShiftRight?_of_lt (show n < 64 by omega), bit?_of_lt (show n - 1 < 64 by omega)]
      rfl

theorem turn?_eq (hw : w ≤ 64) {n : ℕ} (hn : n < w) (u mask : Word) :
    turn? u n w mask = some (if n = 0 then u else (u >>> n ||| u <<< (w - n)) &&& mask) := by
  unfold turn?
  split
  · rfl
  · rw [shiftRight?_of_lt (by omega), minus?_of_le (by omega)]
    simp only [Option.bind_eq_bind, Option.bind_some, shiftLeft?_of_lt (show w - n < 64 by omega)]
    rfl

theorem lsl?_widen (hw : w ≤ 64) (v : BitVec w) (n : ℕ) :
    lsl? (widen v) n w (lowMask w) =
      some (widen (Shift.lsl.eval v n).value, (Shift.lsl.eval v n).carry) := by
  rw [lsl?_eq hw]
  unfold Shift.eval
  split
  · rfl
  · dsimp only
    by_cases hlt : n < w
    · have hvalue : narrow w (widen v <<< n) = v <<< n := by
        apply BitVec.eq_of_getLsbD_eq
        intro i hi
        rw [getLsbD_narrow, BitVec.getLsbD_shiftLeft, BitVec.getLsbD_shiftLeft, getLsbD_widen hw]
        simp only [hi, show i < 64 by omega, decide_true, Bool.true_and]
      rw [if_pos hlt, if_pos (Nat.le_of_lt hlt), and_lowMask, hvalue, getLsbD_widen hw]
    · rw [if_neg hlt]
      by_cases heq : n = w
      · rw [if_pos heq, if_pos (Nat.le_of_eq heq), getLsbD_widen hw, heq]
        simp [widen]
      · rw [if_neg heq, if_neg (by omega)]
        simp [widen]

theorem lsr?_widen (hw : w ≤ 64) (v : BitVec w) (n : ℕ) :
    lsr? (widen v) n w =
      some (widen (Shift.lsr.eval v n).value, (Shift.lsr.eval v n).carry) := by
  rw [lsr?_eq hw]
  unfold Shift.eval
  split
  · rfl
  · dsimp only
    by_cases hlt : n < w
    · have hvalue : widen v >>> n = widen (v >>> n) := by
        apply BitVec.eq_of_getLsbD_eq
        intro i hi
        rw [BitVec.getLsbD_ushiftRight, getLsbD_widen hw, getLsbD_widen hw,
          BitVec.getLsbD_ushiftRight]
      rw [if_pos hlt, if_pos (Nat.le_of_lt hlt), hvalue, getLsbD_widen hw]
    · rw [if_neg hlt]
      by_cases heq : n = w
      · subst heq
        rw [if_pos rfl, if_pos (Nat.le_refl n), getLsbD_widen hw,
          BitVec.ushiftRight_eq_zero (Nat.le_refl n), widen_zero]
        rfl
      · rw [if_neg heq, if_neg (by omega)]
        simp [widen]

/-- Moving the sign bit to the top of the word and back repeats it. -/
theorem sshiftRight_shiftLeft_widen (hw : w ≤ 64) (hpos : 0 < w) (v : BitVec w) :
    (widen v <<< (64 - w)).sshiftRight (64 - w) = v.signExtend 64 := by
  have hmsb : (widen v <<< (64 - w)).msb = v.msb := by
    rw [BitVec.msb_eq_getLsbD_last, BitVec.msb_eq_getLsbD_last, BitVec.getLsbD_shiftLeft,
      getLsbD_widen hw]
    simp [show ¬63 < 64 - w by omega, show 63 - (64 - w) = w - 1 by omega]
  apply BitVec.eq_of_getLsbD_eq
  intro i hi
  rw [BitVec.getLsbD_sshiftRight, BitVec.getLsbD_signExtend, BitVec.getLsbD_shiftLeft, hmsb,
    getLsbD_widen hw]
  by_cases hiw : i < w
  · simp [hi, hiw, show ¬64 ≤ i by omega, show 64 - w + i < 64 by omega]
  · simp [hi, hiw, show ¬64 ≤ i by omega, show ¬64 - w + i < 64 by omega]

theorem narrow_sshiftRight_signExtend (hw : w ≤ 64) (v : BitVec w) {n : ℕ} (hn : n < w) :
    narrow w ((v.signExtend 64).sshiftRight n) = v.sshiftRight n := by
  have hmsb : (v.signExtend 64).msb = v.msb := by
    rw [BitVec.msb_eq_getLsbD_last, BitVec.getLsbD_signExtend, BitVec.msb_eq_getLsbD_last]
    by_cases h64 : w = 64
    · subst h64
      simp
    · simp [show ¬63 < w by omega]
  apply BitVec.eq_of_getLsbD_eq
  intro i hi
  rw [getLsbD_narrow, BitVec.getLsbD_sshiftRight, BitVec.getLsbD_sshiftRight,
    BitVec.getLsbD_signExtend, hmsb]
  by_cases hni : n + i < w
  · simp [hi, hni, show ¬64 ≤ i by omega, show ¬w ≤ i by omega, show n + i < 64 by omega]
  · by_cases h64 : n + i < 64 <;>
      simp [hi, hni, h64, show ¬64 ≤ i by omega, show ¬w ≤ i by omega]

/-- An arithmetic shift by the width or more leaves nothing but the sign. -/
theorem sshiftRight_width (v : BitVec w) :
    v.sshiftRight w = if v.msb then BitVec.allOnes w else 0 := by
  apply BitVec.eq_of_getLsbD_eq
  intro i hi
  rw [BitVec.getLsbD_sshiftRight]
  cases v.msb <;> simp [hi]

theorem asr?_widen (hw : w ≤ 64) (hpos : 0 < w) (v : BitVec w) (n : ℕ) :
    asr? (widen v) n w (lowMask w) =
      some (widen (Shift.asr.eval v n).value, (Shift.asr.eval v n).carry) := by
  have hsign : v.getLsbD (w - 1) = v.msb := (BitVec.msb_eq_getLsbD_last v).symm
  rw [asr?_eq hw hpos]
  unfold Shift.eval
  split
  · rfl
  · dsimp only
    by_cases hle : w ≤ n
    · rw [if_pos hle, Nat.min_eq_right hle, getLsbD_widen hw, sshiftRight_width, hsign]
      cases v.msb
      · simp
      · rfl
    · rw [if_neg hle, Nat.min_eq_left (by omega), sshiftRight_shiftLeft_widen hw hpos, and_lowMask,
        narrow_sshiftRight_signExtend hw v (show n < w by omega), getLsbD_widen hw]

theorem shift?_widen (op : Shift) (hw : w ≤ 64) (hpos : 0 < w) (v : BitVec w) (n : ℕ) :
    shift? op (widen v) n w (lowMask w) =
      some (widen (op.eval v n).value, (op.eval v n).carry) := by
  cases op with
  | lsl => exact lsl?_widen hw v n
  | lsr => exact lsr?_widen hw v n
  | asr => exact asr?_widen hw hpos v n

theorem rotateRight_by_zero (v : BitVec w) : v.rotateRight 0 = v := by
  rw [BitVec.rotateRight_def, Nat.zero_mod]
  simp

theorem turn?_widen (hw : w ≤ 64) (v : BitVec w) {n : ℕ} (hn : n < w) :
    turn? (widen v) n w (lowMask w) = some (widen (v.rotateRight n)) := by
  rw [turn?_eq hw hn]
  split
  · next hzero => rw [hzero, rotateRight_by_zero]
  · next hne =>
    have hvalue : narrow w (widen v >>> n ||| widen v <<< (w - n)) = v.rotateRight n := by
      apply BitVec.eq_of_getLsbD_eq
      intro i hi
      rw [getLsbD_narrow, BitVec.getLsbD_or, BitVec.getLsbD_ushiftRight, BitVec.getLsbD_shiftLeft,
        getLsbD_widen hw, getLsbD_widen hw, BitVec.getLsbD_rotateRight, Nat.mod_eq_of_lt hn]
      by_cases hlow : i < w - n
      · simp [hi, hlow]
      · simp [hi, hlow, show i < 64 by omega, BitVec.getLsbD_of_ge v (n + i) (by omega)]
    rw [and_lowMask, hvalue]

theorem ror?_widen (hw : w ≤ 64) (hpos : 0 < w) (v : BitVec w) (n : ℕ) :
    ror? (widen v) n w (lowMask w) =
      some (widen (rotateRight v n).value, (rotateRight v n).carry) := by
  unfold ror? rotateRight
  split
  · rfl
  · next hn =>
    rw [mod?, if_neg (Nat.ne_of_gt hpos), minus?_of_le hpos]
    simp only [Option.bind_eq_bind, Option.bind_some, turn?_widen hw v (Nat.mod_lt n hpos),
      BitVec.rotateRight_mod_eq_rotateRight, bit?_of_lt (show w - 1 < 64 by omega),
      getLsbD_widen hw, ← BitVec.msb_eq_getLsbD_last]
    rfl

end Shifts

end Host
end Thumb
