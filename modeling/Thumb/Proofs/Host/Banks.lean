import Thumb.Host.Named
import Thumb.Proofs.Host.Words
import Thumb.RegisterFile.Named

/-! Register files in a bank of words. Each operation on the bank that holds a register file leaves
the bank of what the operation on the register file leaves, and never traps. -/
namespace Thumb

theorem Width.bits_le (width : Width) : width.bits ≤ 64 := by cases width <;> decide

@[simp] theorem Shape.bits_le (s : Shape) : s.bits ≤ 64 := s.width.bits_le

theorem Shape.sixteen_dvd_bits (s : Shape) : 16 ∣ s.bits := by
  unfold bits
  cases s.width <;> decide

theorem Flag.offset_le (flag : Flag) : 1 ≤ flag.offset ∧ flag.offset ≤ 4 := by
  cases flag <;> decide

namespace Host

variable {s : Shape}

/-- The bank that holds a register file. -/
def pack (f : RegisterFile s) : Bank where
  width := s.bits
  words := (f.slots.map widen).toArray
  status := widen (f.flags.word s.bits)
  psp := widen f.psp
  primask := widen f.primask
  control := widen f.control

@[simp] theorem width_pack (f : RegisterFile s) : (pack f).width = s.bits := rfl

@[simp] theorem size_pack (f : RegisterFile s) : (pack f).words.size = s.registerCount := by
  simp [pack]

@[simp] theorem status_pack (f : RegisterFile s) :
    (pack f).status = widen (f.flags.word s.bits) := rfl

theorem pack_zero (s : Shape) :
    pack (RegisterFile.zero s) = Bank.zeroed s.bits s.registerCount := by
  simp [pack, RegisterFile.zero, Bank.zeroed, Flags.word, Flags.get, Flags.clear]

@[simp] theorem mask?_pack (f : RegisterFile s) : (pack f).mask? = some (lowMask s.bits) := by
  rw [Bank.mask?, width_pack]
  split
  · next h =>
    rw [Nat.le_antisymm s.bits_le h]
    rfl
  · next h => exact lowBits?_of_lt (by omega)

@[simp] theorem read?_pack (f : RegisterFile s) (i : Fin s.registerCount) :
    (pack f).read? i = some (widen (f.load (.slot i))) := by
  simp [Bank.read?, pack, RegisterFile.load]

@[simp] theorem write?_pack (f : RegisterFile s) (i : Fin s.registerCount) (u : Word) :
    (pack f).write? i u = some (pack (f.store (.slot i) (narrow s.bits u))) := by
  rw [Bank.write?, mask?_pack]
  simp [and_lowMask, pack, RegisterFile.store, Vector.map_set]

section StatusWord

variable {w : ℕ} (hw : 4 ≤ w)

include hw

theorem getLsbD_mask (flag : Flag) (i : ℕ) :
    (flag.mask w).getLsbD i = decide (i = w - flag.offset) := by
  have hf := flag.offset_le
  rw [Flag.mask, BitVec.getLsbD_twoPow, decide_eq_true (show w - flag.offset < w by omega),
    Bool.true_and, decide_eq_decide]
  exact eq_comm

theorem getLsbD_word_offset (flags : Flags) (flag : Flag) :
    (flags.word w).getLsbD (w - flag.offset) = flags.get flag := by
  rw [← Flags.get_ofWord, Flags.ofWord_word hw]

theorem word_and_mask (flags : Flags) (flag : Flag) :
    flags.word w &&& flag.mask w = if flags.get flag then flag.mask w else 0 := by
  apply BitVec.eq_of_getLsbD_eq
  intro i hi
  rw [BitVec.getLsbD_and, getLsbD_mask hw]
  by_cases h : i = w - flag.offset
  · subst h
    cases hg : flags.get flag <;> simp [getLsbD_word_offset hw, getLsbD_mask hw, hg]
  · cases flags.get flag <;> simp [getLsbD_mask hw, h]

theorem mask_ne_zero (flag : Flag) : flag.mask w ≠ 0 := by
  intro h
  have hbit := getLsbD_mask hw flag (w - flag.offset)
  rw [h] at hbit
  simp at hbit

theorem word_set (flags : Flags) (flag : Flag) (b : Bool) :
    (flags.set flag b).word w =
      if b then flags.word w ||| flag.mask w else flags.word w &&& ~~~flag.mask w := by
  apply BitVec.eq_of_getLsbD_eq
  intro i hi
  by_cases h : i = w - flag.offset
  · subst h
    rw [getLsbD_word_offset hw, Flags.get_set_self]
    cases b <;> simp [getLsbD_mask hw]
  · have hset : ((flags.set flag b).word w).getLsbD i = (flags.word w).getLsbD i := by
      have hbit := beq_false_of_ne h
      rw [Flags.getLsbD_word hw, Flags.getLsbD_word hw]
      cases flag <;> simp only [Flag.offset] at hbit <;> simp [Flags.set, hbit]
    have hmask : (flag.mask w).getLsbD i = false := by rw [getLsbD_mask hw, decide_eq_false h]
    rw [hset]
    cases b
    · rw [if_neg Bool.false_ne_true, BitVec.getLsbD_and, BitVec.getLsbD_not, hmask]
      simp [hi]
    · rw [if_pos rfl, BitVec.getLsbD_or, hmask, Bool.or_false]

end StatusWord

@[simp] theorem flagMask?_pack (f : RegisterFile s) (flag : Flag) :
    (pack f).flagMask? flag = some (widen (flag.mask s.bits)) := by
  have hs := s.sixteen_le_bits
  have hbits := s.bits_le
  have hf := flag.offset_le
  rw [Bank.flagMask?, width_pack, minus?_of_le (by omega)]
  simp only [Option.bind_eq_bind, Option.bind_some,
    shiftLeft?_of_lt (show s.bits - flag.offset < 64 by omega)]
  congr 1
  apply BitVec.eq_of_getLsbD_eq
  intro i hi
  have hone (k : ℕ) : (1 : Word).getLsbD k = decide (k = 0) := BitVec.getLsbD_one.trans (by simp)
  rw [getLsbD_widen hbits, getLsbD_mask (by omega), BitVec.getLsbD_shiftLeft, hone,
    decide_eq_true hi, Bool.true_and, ← decide_not, ← Bool.decide_and, decide_eq_decide]
  omega

@[simp] theorem flagsMask?_pack (f : RegisterFile s) :
    (pack f).flagsMask? = some (widen (Flags.word s.bits ⟨true, true, true, true⟩)) := by
  simp [Bank.flagsMask?, Flags.word, Flags.get, widen]

@[simp] theorem isSet?_pack (f : RegisterFile s) (flag : Flag) :
    (pack f).isSet? flag = some (f.flags.get flag) := by
  have hs := s.sixteen_le_bits
  rw [Bank.isSet?, flagMask?_pack]
  have hand : widen (f.flags.word s.bits) &&& widen (flag.mask s.bits) =
      widen (if f.flags.get flag then flag.mask s.bits else 0) := by
    rw [← word_and_mask (by omega)]
    exact BitVec.setWidth_and.symm
  have hne : widen (flag.mask s.bits) ≠ 0 := by
    intro h
    exact mask_ne_zero (by omega) flag ((widen_inj s.bits_le).mp (h.trans widen_zero.symm))
  cases hg : f.flags.get flag <;> simp_all

theorem widen_and_not {w : ℕ} (hw : w ≤ 64) (v v' : BitVec w) :
    widen v &&& ~~~widen v' = widen (v &&& ~~~v') := by
  apply BitVec.eq_of_getLsbD_eq
  intro i hi
  rw [BitVec.getLsbD_and, BitVec.getLsbD_not, getLsbD_widen hw, getLsbD_widen hw, getLsbD_widen hw,
    BitVec.getLsbD_and, BitVec.getLsbD_not]
  by_cases hiw : i < w
  · simp [hi, hiw]
  · simp [BitVec.getLsbD_of_ge v i (by omega)]

@[simp] theorem setFlag?_pack (f : RegisterFile s) (flag : Flag) (b : Bool) :
    (pack f).setFlag? flag b = some (pack (f.setFlag flag b)) := by
  have hs := s.sixteen_le_bits
  have hstatus : (if b then widen (f.flags.word s.bits) ||| widen (flag.mask s.bits)
      else widen (f.flags.word s.bits) &&& ~~~widen (flag.mask s.bits)) =
      widen ((f.flags.set flag b).word s.bits) := by
    rw [word_set (by omega), widen_and_not s.bits_le]
    cases b
    · rfl
    · exact BitVec.setWidth_or.symm
  rw [Bank.setFlag?, flagMask?_pack]
  exact congrArg (fun status => some { pack f with status }) hstatus

@[simp] theorem setFlags?_pack (f : RegisterFile s) (flags : Flags) :
    (pack f).setFlags? flags = some (pack (f.setFlags flags)) := by
  have hbit (flag : Flag) (u : Word) :
      (if flags.get flag then do return u ||| (← (pack f).flagMask? flag) else return u) =
        some (u ||| widen (if flags.get flag then flag.mask s.bits else 0)) := by
    cases flags.get flag <;> simp
  have hstatus : (((0 ||| widen (if flags.get .n then Flag.n.mask s.bits else 0)) |||
      widen (if flags.get .z then Flag.z.mask s.bits else 0)) |||
      widen (if flags.get .c then Flag.c.mask s.bits else 0)) |||
      widen (if flags.get .v then Flag.v.mask s.bits else 0) = widen (flags.word s.bits) := by
    simp [Flags.word, widen]
  rw [Bank.setFlags?]
  simp only [List.foldlM_cons, List.foldlM_nil, hbit]
  exact congrArg (fun status => some { pack f with status }) hstatus

theorem widen_beq_zero {w : ℕ} (hw : w ≤ 64) (v : BitVec w) : (widen v == 0) = (v == 0) := by
  rw [Bool.eq_iff_iff, beq_iff_eq, beq_iff_eq, ← widen_inj hw]
  exact Eq.congr_right widen_zero.symm

theorem toNat_lowMask {w : ℕ} (hw : w ≤ 64) : (lowMask w).toNat = 2 ^ w - 1 := by
  rw [lowMask, toNat_widen hw, BitVec.toNat_allOnes]

@[simp] theorem isNegative?_pack (f : RegisterFile s) (u : Word) :
    (pack f).isNegative? u = some (narrow s.bits u).msb := by
  have hs := s.sixteen_le_bits
  have hbits := s.bits_le
  rw [Bank.isNegative?, width_pack, minus?_of_le (by omega), BitVec.msb_eq_getLsbD_last,
    getLsbD_narrow]
  simp [bit?_of_lt (show s.bits - 1 < 64 by omega), show s.bits - 1 < s.bits by omega]

@[simp] theorem isZero?_pack (f : RegisterFile s) (u : Word) :
    (pack f).isZero? u = some (narrow s.bits u == 0) := by
  rw [Bank.isZero?, mask?_pack]
  simp only [Option.bind_eq_bind, Option.bind_some, and_lowMask, widen_beq_zero s.bits_le]
  rfl

@[simp] theorem carry?_pack (f : RegisterFile s) (op : Arith) (x y : Word) :
    (pack f).carry? op x y = some (op.carry (narrow s.bits x) (narrow s.bits y)) := by
  have hpos := Nat.two_pow_pos s.bits
  rw [Bank.carry?, mask?_pack]
  simp only [Option.bind_eq_bind, Option.bind_some, and_lowMask, toNat_lowMask s.bits_le,
    BitVec.le_def, toNat_widen s.bits_le]
  cases op with
  | add =>
    simp [Arith.carry, BitVec.uaddOverflow]
    omega
  | sub => simp [Arith.carry, BitVec.usubOverflow, ← decide_not]

@[simp] theorem overflow?_pack (f : RegisterFile s) (op : Arith) (x y result : Word) :
    (pack f).overflow? op x y result =
      some (op.overflow (narrow s.bits x) (narrow s.bits y) (narrow s.bits result)) := by
  cases op <;> simp [Bank.overflow?, Arith.overflow]

@[simp] theorem setN?_pack (f : RegisterFile s) (result : Word) :
    (pack f).setN? result = some (pack (f.setFlag .n (narrow s.bits result).msb)) := by
  simp [Bank.setN?]

@[simp] theorem setZ?_pack (f : RegisterFile s) (result : Word) :
    (pack f).setZ? result = some (pack (f.setFlag .z (narrow s.bits result == 0))) := by
  simp [Bank.setZ?]

@[simp] theorem setC?_pack (f : RegisterFile s) (op : Arith) (x y : Word) :
    (pack f).setC? op x y =
      some (pack (f.setFlag .c (op.carry (narrow s.bits x) (narrow s.bits y)))) := by
  simp [Bank.setC?]

@[simp] theorem setV?_pack (f : RegisterFile s) (op : Arith) (x y result : Word) :
    (pack f).setV? op x y result = some (pack (f.setFlag .v
      (op.overflow (narrow s.bits x) (narrow s.bits y) (narrow s.bits result)))) := by
  simp [Bank.setV?]

@[simp] theorem setNZ?_pack (f : RegisterFile s) (result : Word) :
    (pack f).setNZ? result =
      some (pack (f.setFlags (f.flags.withResult (narrow s.bits result)))) := by
  simp [Bank.setNZ?]
  rfl

@[simp] theorem setNZCV?_pack (f : RegisterFile s) (op : Arith) (x y result : Word) :
    (pack f).setNZCV? op x y result = some (pack (f.setFlags
      (Flags.ofArith op (narrow s.bits x) (narrow s.bits y) (narrow s.bits result)))) := by
  simp [Bank.setNZCV?, Flags.ofArith]

/-- The sum of three numbers is taken before it is cut to the width. -/
theorem addWithCarry?_pack (f : RegisterFile s) (x y : Word) (carry : Bool) :
    (pack f).addWithCarry? x y carry =
      let sum := addWithCarry (narrow s.bits x) (narrow s.bits y) carry
      some (widen sum.result, sum.carry, sum.overflow) := by
  have hpos := Nat.two_pow_pos s.bits
  have hsum : narrow s.bits (BitVec.ofNat 64 ((narrow s.bits x).toNat + (narrow s.bits y).toNat +
      carry.toNat)) = (addWithCarry (narrow s.bits x) (narrow s.bits y) carry).result := by
    rw [narrow_ofNat s.bits_le, BitVec.ofNat_add, BitVec.ofNat_add, BitVec.ofNat_toNat,
      BitVec.ofNat_toNat, BitVec.setWidth_eq, BitVec.setWidth_eq]
    rfl
  rw [Bank.addWithCarry?, mask?_pack]
  simp only [Option.bind_eq_bind, Option.bind_some, and_lowMask, toNat_lowMask s.bits_le,
    toNat_widen s.bits_le, hsum, isNegative?_pack, narrow_widen s.bits_le]
  simp [addWithCarry, BitVec.carry, Arith.overflow]
  omega

@[simp] theorem readSpecial?_pack (f : RegisterFile s) (r : SpecialRegister) :
    (pack f).readSpecial? r = some (widen (f.load (r.location s))) := by
  have hs := s.sixteen_le_bits
  have hmsp := read?_pack f (s.slot .sp)
  cases r with
  | msp => exact hmsp
  | primask => exact congrArg some (widen_setWidth (by omega) s.bits_le f.primask).symm
  | control => exact congrArg some (widen_setWidth (by omega) s.bits_le f.control).symm
  | _ => simp [Bank.readSpecial?, SpecialRegister.location, RegisterFile.load, pack, widen]

@[simp] theorem writeSpecial?_pack (f : RegisterFile s) (r : SpecialRegister) (u : Word) :
    (pack f).writeSpecial? r u = some (pack (f.store (r.location s) (narrow s.bits u))) := by
  have hs := s.sixteen_le_bits
  have hmsp := write?_pack f (s.slot .sp) u
  have hstatus : u &&& widen (Flags.word s.bits ⟨true, true, true, true⟩) =
      widen ((Flags.ofWord (narrow s.bits u)).word s.bits) := by
    rw [and_widen s.bits_le, Flags.word_ofWord (by omega)]
  have hlow (k : ℕ) (hk : k ≤ s.bits) : u &&& lowMask k = widen ((narrow s.bits u).setWidth k) := by
    rw [and_lowMask, setWidth_narrow hk]
  cases r with
  | msp => exact hmsp
  | psp =>
    rw [Bank.writeSpecial?, mask?_pack]
    simp only [Option.bind_eq_bind, Option.bind_some, and_lowMask]
    rfl
  | primask => exact congrArg (fun primask => some { pack f with primask }) (hlow 1 (by omega))
  | control => exact congrArg (fun control => some { pack f with control }) (hlow 2 (by omega))
  | ipsr | epsr | iepsr => rfl
  | _ =>
    rw [Bank.writeSpecial?, flagsMask?_pack]
    exact congrArg (fun status => some { pack f with status }) hstatus

/-- In the bank of a register file a name stands for a place of the location that it denotes there, or
is refused for the same reason. -/
theorem lookup_pack (f : RegisterFile s) (name : String) :
    (∃ i, (pack f).lookup name = .ok (.numbered i.val) ∧
        Location.ofName s name = .ok (.slot i)) ∨
      (∃ r, (pack f).lookup name = .ok (.special r) ∧
        Location.ofName s name = .ok (r.location s)) ∨
      ∃ e, (pack f).lookup name = .error e ∧ Location.ofName s name = .error e := by
  unfold Bank.lookup Location.ofName
  dsimp only
  rw [size_pack]
  cases SpecialRegister.ofName? (Text.trimmed name) with
  | some r => exact .inr (.inl ⟨r, rfl, rfl⟩)
  | none =>
    cases Token.registerNumber (Text.trimmed name) with
    | error e => exact .inr (.inr ⟨e, rfl, rfl⟩)
    | ok i =>
      by_cases hi : i < s.registerCount
      · exact .inl ⟨⟨i, hi⟩, if_neg (Nat.not_le.mpr hi), dif_pos hi⟩
      · exact .inr (.inr ⟨_, if_pos (Nat.not_lt.mp hi), dif_neg hi⟩)

theorem getNamed?_pack (f : RegisterFile s) (name : String) :
    (pack f).getNamed? name = some ((f.readNamed name).map (BitVec.ofNat 64)) := by
  have hread (l : Location s) : widen (f.load l) = BitVec.ofNat 64 (f.read l) :=
    (BitVec.ofNat_toNat 64 (f.load l)).symm
  rw [Bank.getNamed?, RegisterFile.readNamed]
  obtain ⟨i, hplace, hl⟩ | ⟨r, hplace, hl⟩ | ⟨e, hplace, hl⟩ := lookup_pack f name
  · rw [hplace, hl]
    simp only [read?_pack, hread]
    rfl
  · rw [hplace, hl]
    simp only [readSpecial?_pack, hread]
    rfl
  · rw [hplace, hl]
    rfl

theorem setNamed?_pack (f : RegisterFile s) (name : String) (u : Word) :
    (pack f).setNamed? name u = some ((f.writeNamed name u.toNat).map fun _ => (),
      pack ((f.writeNamed name u.toNat).toOption.getD f)) := by
  rw [Bank.setNamed?, RegisterFile.writeNamed]
  obtain ⟨i, hplace, hl⟩ | ⟨r, hplace, hl⟩ | ⟨e, hplace, hl⟩ := lookup_pack f name
  · rw [hplace, hl]
    simp only [write?_pack, ← word_toNat_eq]
    rfl
  · rw [hplace, hl]
    simp only [writeSpecial?_pack, ← word_toNat_eq]
    rfl
  · rw [hplace, hl]
    rfl

end Host
end Thumb
