import Thumb.Instruction.Decode
import Thumb.Proofs.TokenReading

/-! Reading single operands and groups of them. Each reader accepts exactly the tokens that say what
it looks for, so a group of readers is described by what its tokens say. -/
namespace Thumb

def Operand.written : Operand → Written
  | register r => .register r
  | immediate n => .literal n

def Operand.IsLowOrIn (range : ImmediateRange) : Operand → Prop
  | register r => r.isLow = true
  | immediate n => range.admits n = true

namespace Instruction

variable {count : Nat} {a b c : Token}

theorem lowOperand_eq_ok_iff (hcount : 16 ≤ count) (ha : a.IsClassified) {r : Register} :
    lowOperand count a = .ok r ↔ a.Says (.register r) ∧ r.isLow = true := by
  rw [lowOperand, Constraint.register_eq_ok_iff rfl (by decide) hcount ha]
  simp [RegisterClass.admits_iff, Register.isLow, Nat.lt_succ_iff]

theorem anyOperand_eq_ok_iff (hcount : 16 ≤ count) (ha : a.IsClassified) {r : Register} :
    anyOperand count a = .ok r ↔ a.Says (.register r) := by
  rw [anyOperand, Constraint.register_eq_ok_iff rfl (by decide) hcount ha]
  have hr := r.index_lt
  simp [RegisterClass.admits_iff, Nat.le_of_lt_succ hr]

theorem linkOrGeneral_eq_ok_iff (hcount : 16 ≤ count) (ha : a.IsClassified) {r : Register} :
    Constraint.linkOrGeneralRegisters.register count a.text = .ok r ↔
      a.Says (.register r) ∧ (r = .lr ∨ r.index ≤ 12) := by
  rw [Constraint.register_eq_ok_iff rfl (by decide) hcount ha]
  cases r <;> simp [RegisterClass.admits_iff, Register.index]

theorem general_eq_ok_iff (hcount : 16 ≤ count) (ha : a.IsClassified) {r : Register} :
    Constraint.generalRegisters.register count a.text = .ok r ↔
      a.Says (.register r) ∧ r.index ≤ 12 := by
  rw [Constraint.register_eq_ok_iff rfl (by decide) hcount ha]
  simp [RegisterClass.admits_iff]

theorem specialOperand_eq_ok_iff (ha : a.IsClassified) {r : SpecialRegister} :
    specialOperand count a = .ok r ↔ a.Says (.special r) := Constraint.special_eq_ok_iff ha

theorem literalOperand_eq_ok_iff {range : Constraint} {r : ImmediateRange}
    (hr : range.domain = .immediates r) (hstep : r.step ≠ 0) (ha : a.IsClassified) {n : Nat} :
    literalOperand range count a = .ok n ↔ a.Says (.literal n) ∧ r.admits n = true :=
  Constraint.immediate_eq_ok_iff hr hstep ha

theorem labelOperand_eq_ok_iff {m : Mnemonic} {name : String} :
    labelOperand m a = .ok name ↔ a.Says (.label name) := by
  rw [labelOperand, guard_eq_ok_iff, Token.says_label_iff]

/-- A low register or a literal in the range is accepted, and nothing else is. -/
theorem literalOrLowOperand_eq_ok_iff {range : Constraint} {r : ImmediateRange}
    (hr : range.domain = .immediates r) (hstep : r.step ≠ 0) (hcount : 16 ≤ count)
    (ha : a.IsClassified) {source : Operand} :
    literalOrLowOperand range count a = .ok source ↔
      a.Says source.written ∧ source.IsLowOrIn r := by
  unfold literalOrLowOperand
  split
  · next hkind =>
    rw [map_eq_ok_iff]
    constructor
    · rintro ⟨n, hn, rfl⟩
      exact (literalOperand_eq_ok_iff hr hstep ha).mp hn
    · rintro ⟨hsaid, hsource⟩
      cases source with
      | register rm => cases hkind.symm.trans hsaid.kind_eq
      | immediate n => exact ⟨n, (literalOperand_eq_ok_iff hr hstep ha).mpr ⟨hsaid, hsource⟩, rfl⟩
  · next hkind =>
    rw [map_eq_ok_iff]
    constructor
    · rintro ⟨rm, hrm, rfl⟩
      exact (lowOperand_eq_ok_iff hcount ha).mp hrm
    · rintro ⟨hsaid, hsource⟩
      cases source with
      | register rm => exact ⟨rm, (lowOperand_eq_ok_iff hcount ha).mpr ⟨hsaid, hsource⟩, rfl⟩
      | immediate n => exact absurd hsaid.kind_eq hkind

section Several

variable (hcount : 16 ≤ count) (ha : a.IsClassified) (hb : b.IsClassified) (hc : c.IsClassified)
include hcount ha hb

theorem twoLowOperands_eq_ok_iff {x y : Register} :
    twoLowOperands count a b = .ok (x, y) ↔
      (a.Says (.register x) ∧ x.isLow = true) ∧ (b.Says (.register y) ∧ y.isLow = true) := by
  rw [← lowOperand_eq_ok_iff hcount ha, ← lowOperand_eq_ok_iff hcount hb]
  simp only [twoLowOperands, bind_eq_ok_iff, pure_eq_ok_iff, Prod.mk.injEq]
  constructor
  · rintro ⟨_, hx, _, hy, rfl, rfl⟩
    exact ⟨hx, hy⟩
  · rintro ⟨hx, hy⟩
    exact ⟨x, hx, y, hy, rfl, rfl⟩

include hc

theorem accumulating_eq_ok_iff {m : Mnemonic} {rd rm : Register} :
    accumulating m count a b c = .ok (rd, rm) ↔
      (a.Says (.register rd) ∧ rd.isLow = true) ∧ b.Says (.register rd) ∧
        (c.Says (.register rm) ∧ rm.isLow = true) := by
  rw [accumulating, bind_eq_ok_iff]
  constructor
  · rintro ⟨⟨x, y⟩, hxy, h⟩
    obtain ⟨ha', hb'⟩ := (twoLowOperands_eq_ok_iff hcount ha hb).mp hxy
    obtain ⟨z, hz, h⟩ := bind_eq_ok_iff.mp h
    obtain ⟨_, hsame, hpair⟩ := bind_eq_ok_iff.mp h
    obtain ⟨rfl, rfl⟩ := Prod.mk.inj (pure_eq_ok_iff.mp hpair)
    obtain ⟨rfl, -⟩ := guard_eq_ok_iff.mp hsame
    exact ⟨ha', hb'.1, (lowOperand_eq_ok_iff hcount hc).mp hz⟩
  · rintro ⟨ha', hb', hc'⟩
    refine ⟨(rd, rd), (twoLowOperands_eq_ok_iff hcount ha hb).mpr ⟨ha', hb', ha'.2⟩, ?_⟩
    rw [bind_eq_ok_iff]
    refine ⟨rm, (lowOperand_eq_ok_iff hcount hc).mpr hc', ?_⟩
    simp [requireSame]

theorem commuting_eq_ok_iff {m : Mnemonic} {rd r : Register} :
    commuting m count a b c = .ok (rd, r) ↔
      a.Says (.register rd) ∧ (rd.isLow = true ∧ r.isLow = true) ∧
        (b.Says (.register rd) ∧ c.Says (.register r) ∨
          b.Says (.register r) ∧ c.Says (.register rd)) := by
  rw [commuting, bind_eq_ok_iff]
  constructor
  · rintro ⟨⟨x, y⟩, hxy, h⟩
    obtain ⟨⟨ha', hx⟩, hb', hy⟩ := (twoLowOperands_eq_ok_iff hcount ha hb).mp hxy
    obtain ⟨z, hz, h⟩ := bind_eq_ok_iff.mp h
    obtain ⟨hc', hz⟩ := (lowOperand_eq_ok_iff hcount hc).mp hz
    obtain ⟨other, hother, h⟩ := bind_eq_ok_iff.mp h
    obtain ⟨rfl, rfl⟩ := Prod.mk.inj (pure_eq_ok_iff.mp h)
    unfold otherSource at hother
    split at hother
    · next hsame =>
      obtain rfl := Except.ok.inj hother
      exact ⟨ha', ⟨hx, hz⟩, .inl ⟨hsame ▸ hb', hc'⟩⟩
    · obtain ⟨rfl, rfl⟩ := guard_eq_ok_iff.mp hother
      exact ⟨ha', ⟨hx, hy⟩, .inr ⟨hb', hc'⟩⟩
  · rintro ⟨ha', ⟨hd, hr⟩, ⟨hb', hc'⟩ | ⟨hb', hc'⟩⟩
    · refine ⟨(rd, rd), (twoLowOperands_eq_ok_iff hcount ha hb).mpr ⟨⟨ha', hd⟩, hb', hd⟩, ?_⟩
      rw [bind_eq_ok_iff]
      refine ⟨r, (lowOperand_eq_ok_iff hcount hc).mpr ⟨hc', hr⟩, ?_⟩
      simp [otherSource]
    · refine ⟨(rd, r), (twoLowOperands_eq_ok_iff hcount ha hb).mpr ⟨⟨ha', hd⟩, hb', hr⟩, ?_⟩
      rw [bind_eq_ok_iff]
      refine ⟨rd, (lowOperand_eq_ok_iff hcount hc).mpr ⟨hc', hd⟩, ?_⟩
      by_cases h : rd = r <;> simp [otherSource, h]

theorem decodeArith_eq_ok_iff {op : Arith} {i : Instruction} :
    decodeArith op count a b c = .ok i ↔
      ∃ rd rn source, i = .arith op rd rn source ∧ (a.Says (.register rd) ∧ rd.isLow = true) ∧
        (b.Says (.register rn) ∧ rn.isLow = true) ∧ c.Says source.written ∧
          source.IsLowOrIn (if rd = rn then ⟨0, 255, 1⟩ else ⟨0, 7, 1⟩) := by
  have hrange : ∀ rd rn : Register,
      (if rd = rn then Constraint.imm8 else .imm3).domain =
        .immediates (if rd = rn then ⟨0, 255, 1⟩ else ⟨0, 7, 1⟩) := by
    intro rd rn
    split <;> rfl
  have hstep : ∀ rd rn : Register,
      (if rd = rn then (⟨0, 255, 1⟩ : ImmediateRange) else ⟨0, 7, 1⟩).step ≠ 0 := by
    intro rd rn
    split <;> decide
  rw [decodeArith, bind_eq_ok_iff]
  constructor
  · rintro ⟨⟨rd, rn⟩, hpair, h⟩
    obtain ⟨ha', hb'⟩ := (twoLowOperands_eq_ok_iff hcount ha hb).mp hpair
    obtain ⟨source, hsource, hi⟩ := bind_eq_ok_iff.mp h
    have hc' := (literalOrLowOperand_eq_ok_iff (hrange rd rn) (hstep rd rn) hcount hc).mp hsource
    exact ⟨rd, rn, source, (pure_eq_ok_iff.mp hi).symm, ha', hb', hc'⟩
  · rintro ⟨rd, rn, source, rfl, ha', hb', hc'⟩
    refine ⟨(rd, rn), (twoLowOperands_eq_ok_iff hcount ha hb).mpr ⟨ha', hb'⟩, ?_⟩
    rw [bind_eq_ok_iff]
    exact ⟨source,
      (literalOrLowOperand_eq_ok_iff (hrange rd rn) (hstep rd rn) hcount hc).mpr hc', rfl⟩

theorem decodeShift_eq_ok_iff {op : Shift} {range : Constraint} {r : ImmediateRange}
    (hr : range.domain = .immediates r) (hstep : r.step ≠ 0) {m : Mnemonic} {i : Instruction} :
    decodeShift op range m count a b c = .ok i ↔
      ∃ (rd rm : Register) (source : Operand), (a.Says (.register rd) ∧ rd.isLow = true) ∧
        (b.Says (.register rm) ∧ rm.isLow = true) ∧ (c.Says source.written ∧ source.IsLowOrIn r) ∧
          match source with
          | .immediate n => i = .shift op rd rm n
          | .register amount => rd = rm ∧ i = .shiftBy op rd amount := by
  rw [decodeShift, bind_eq_ok_iff]
  constructor
  · rintro ⟨⟨rd, rm⟩, hpair, h⟩
    obtain ⟨ha', hb'⟩ := (twoLowOperands_eq_ok_iff hcount ha hb).mp hpair
    obtain ⟨source, hsource, hi⟩ := bind_eq_ok_iff.mp h
    have hc' := (literalOrLowOperand_eq_ok_iff hr hstep hcount hc).mp hsource
    refine ⟨rd, rm, source, ha', hb', hc', ?_⟩
    cases source with
    | immediate n => exact (pure_eq_ok_iff.mp hi).symm
    | register amount =>
      obtain ⟨_, hsame, hi⟩ := bind_eq_ok_iff.mp hi
      exact ⟨(guard_eq_ok_iff.mp hsame).1, (pure_eq_ok_iff.mp hi).symm⟩
  · rintro ⟨rd, rm, source, ha', hb', hc', hi⟩
    refine ⟨(rd, rm), (twoLowOperands_eq_ok_iff hcount ha hb).mpr ⟨ha', hb'⟩, ?_⟩
    rw [bind_eq_ok_iff]
    refine ⟨source, (literalOrLowOperand_eq_ok_iff hr hstep hcount hc).mpr hc', ?_⟩
    cases source with
    | immediate n => rw [hi]; rfl
    | register amount =>
      obtain ⟨rfl, rfl⟩ := hi
      simp [requireSame]

theorem decodeNegate_eq_ok_iff {i : Instruction} :
    decodeNegate count a b c = .ok i ↔
      ∃ rd rn, i = .negate rd rn ∧ (a.Says (.register rd) ∧ rd.isLow = true) ∧
        (b.Says (.register rn) ∧ rn.isLow = true) ∧ c.Says (.literal 0) := by
  rw [decodeNegate, bind_eq_ok_iff]
  constructor
  · rintro ⟨⟨rd, rn⟩, hpair, h⟩
    obtain ⟨ha', hb'⟩ := (twoLowOperands_eq_ok_iff hcount ha hb).mp hpair
    obtain ⟨n, hn, h⟩ := bind_eq_ok_iff.mp h
    have hc' := (literalOperand_eq_ok_iff rfl (by decide) hc).mp hn
    obtain ⟨rfl, hi⟩ := guard_eq_ok_iff.mp h
    exact ⟨rd, rn, hi.symm, ha', hb', hc'.1⟩
  · rintro ⟨rd, rn, rfl, ha', hb', hc'⟩
    refine ⟨(rd, rn), (twoLowOperands_eq_ok_iff hcount ha hb).mpr ⟨ha', hb'⟩, ?_⟩
    rw [bind_eq_ok_iff]
    exact ⟨0, (literalOperand_eq_ok_iff rfl (by decide) hc).mpr ⟨hc', by decide⟩, rfl⟩

theorem decodeSub_eq_ok_iff {i : Instruction} :
    decodeSub count a b c = .ok i ↔
      ∃ n, i = .subSp n ∧ a.Says (.register .sp) ∧ b.Says (.register .sp) ∧ c.Says (.literal n) ∧
        ImmediateRange.admits ⟨0, 508, 4⟩ n = true := by
  rw [decodeSub, bind_eq_ok_iff]
  constructor
  · rintro ⟨rd, hrd, h⟩
    obtain ⟨rn, hrn, h⟩ := bind_eq_ok_iff.mp h
    obtain ⟨n, hn, h⟩ := bind_eq_ok_iff.mp h
    obtain ⟨⟨rfl, rfl⟩, hi⟩ := guard_eq_ok_iff.mp h
    exact ⟨n, hi.symm, (anyOperand_eq_ok_iff hcount ha).mp hrd,
      (anyOperand_eq_ok_iff hcount hb).mp hrn,
      (literalOperand_eq_ok_iff rfl (by decide) hc).mp hn⟩
  · rintro ⟨n, rfl, ha', hb', hc'⟩
    refine ⟨.sp, (anyOperand_eq_ok_iff hcount ha).mpr ha', ?_⟩
    rw [bind_eq_ok_iff]
    refine ⟨.sp, (anyOperand_eq_ok_iff hcount hb).mpr hb', ?_⟩
    rw [bind_eq_ok_iff]
    exact ⟨n, (literalOperand_eq_ok_iff rfl (by decide) hc).mpr hc', rfl⟩

/-- What a register and a second source have to be for their sum to be an `ADD`. -/
def AddAdmits (rd rn : Register) : Operand → Prop
  | .register _ => rd = rn ∨ rn = .sp ∨ rn = .pc
  | .immediate n =>
    (rd = .sp ∧ rn = .sp) ∧ ImmediateRange.admits ⟨0, 508, 4⟩ n = true ∨
      (rd.isLow = true ∧ (rn = .sp ∨ rn = .pc)) ∧ ImmediateRange.admits ⟨0, 1020, 4⟩ n = true

theorem decodeAdd_eq_ok_iff {i : Instruction} :
    decodeAdd count a b c = .ok i ↔
      ∃ rd rn source, i = .add rd rn source ∧ a.Says (.register rd) ∧ b.Says (.register rn) ∧
        c.Says source.written ∧ AddAdmits rd rn source := by
  rw [decodeAdd, bind_eq_ok_iff]
  constructor
  · rintro ⟨rd, hrd, h⟩
    obtain ⟨rn, hrn, h⟩ := bind_eq_ok_iff.mp h
    have ha' := (anyOperand_eq_ok_iff hcount ha).mp hrd
    have hb' := (anyOperand_eq_ok_iff hcount hb).mp hrn
    dsimp only at h
    split at h
    · split at h
      · next hsp =>
        obtain ⟨n, hn, hi⟩ := bind_eq_ok_iff.mp h
        obtain ⟨hc', hadm⟩ := (literalOperand_eq_ok_iff rfl (by decide) hc).mp hn
        exact ⟨rd, rn, .immediate n, (pure_eq_ok_iff.mp hi).symm, ha', hb', hc',
          .inl ⟨hsp, hadm⟩⟩
      · split at h
        · next hpointer =>
          obtain ⟨low, hlow, h⟩ := bind_eq_ok_iff.mp h
          obtain ⟨n, hn, hi⟩ := bind_eq_ok_iff.mp h
          obtain ⟨hsaid, hlow⟩ := (lowOperand_eq_ok_iff hcount ha).mp hlow
          obtain ⟨hc', hadm⟩ := (literalOperand_eq_ok_iff rfl (by decide) hc).mp hn
          exact ⟨low, rn, .immediate n, (pure_eq_ok_iff.mp hi).symm, hsaid, hb', hc',
            .inr ⟨⟨hlow, hpointer⟩, hadm⟩⟩
        · cases h
    · obtain ⟨rm, hrm, h⟩ := bind_eq_ok_iff.mp h
      have hc' := (anyOperand_eq_ok_iff hcount hc).mp hrm
      split at h
      · obtain ⟨_, hsame, hi⟩ := bind_eq_ok_iff.mp h
        exact ⟨rd, rn, .register rm, (pure_eq_ok_iff.mp hi).symm, ha', hb', hc',
          .inl (guard_eq_ok_iff.mp hsame).1⟩
      · next hpointer =>
        exact ⟨rd, rn, .register rm, (pure_eq_ok_iff.mp h).symm, ha', hb', hc',
          .inr (not_not.mp hpointer)⟩
  · rintro ⟨rd, rn, source, rfl, ha', hb', hc', hadm⟩
    refine ⟨rd, (anyOperand_eq_ok_iff hcount ha).mpr ha', ?_⟩
    rw [bind_eq_ok_iff]
    refine ⟨rn, (anyOperand_eq_ok_iff hcount hb).mpr hb', ?_⟩
    dsimp only
    cases source with
    | immediate n =>
      have hkind : c.kind = .immediate := hc'.kind_eq
      rw [if_pos hkind]
      rcases hadm with ⟨hsp, hadm⟩ | ⟨⟨hlow, hpointer⟩, hadm⟩
      · rw [if_pos hsp, bind_eq_ok_iff]
        exact ⟨n, (literalOperand_eq_ok_iff rfl (by decide) hc).mpr ⟨hc', hadm⟩, rfl⟩
      · -- `SP` is not low, so the forms with a literal exclude each other
        have hsp : ¬(rd = .sp ∧ rn = .sp) := by
          rintro ⟨rfl, -⟩
          cases hlow
        rw [if_neg hsp, if_pos hpointer, bind_eq_ok_iff]
        refine ⟨rd, (lowOperand_eq_ok_iff hcount ha).mpr ⟨ha', hlow⟩, ?_⟩
        rw [bind_eq_ok_iff]
        exact ⟨n, (literalOperand_eq_ok_iff rfl (by decide) hc).mpr ⟨hc', hadm⟩, rfl⟩
    | register rm =>
      have hliteral : c.kind ≠ .immediate := by
        rw [hc'.kind_eq]
        nofun
      rw [if_neg hliteral, bind_eq_ok_iff]
      refine ⟨rm, (anyOperand_eq_ok_iff hcount hc).mpr hc', ?_⟩
      split
      · next hpointer =>
        obtain rfl := hadm.resolve_right hpointer
        simp [requireSame]
      · rfl

omit hc

theorem decodeCompare_eq_ok_iff {i : Instruction} :
    decodeCompare count a b = .ok i ↔
      ∃ rn source, i = .compare rn source ∧ a.Says (.register rn) ∧ b.Says source.written ∧
        match source with
        | .register _ => True
        | .immediate n => rn.isLow = true ∧ ImmediateRange.admits ⟨0, 255, 1⟩ n = true := by
  rw [decodeCompare]
  constructor
  · intro h
    split at h
    · obtain ⟨rn, hrn, h⟩ := bind_eq_ok_iff.mp h
      obtain ⟨n, hn, hi⟩ := bind_eq_ok_iff.mp h
      obtain ⟨ha', hlow⟩ := (lowOperand_eq_ok_iff hcount ha).mp hrn
      obtain ⟨hb', hadm⟩ := (literalOperand_eq_ok_iff rfl (by decide) hb).mp hn
      exact ⟨rn, .immediate n, (pure_eq_ok_iff.mp hi).symm, ha', hb', hlow, hadm⟩
    · obtain ⟨rn, hrn, h⟩ := bind_eq_ok_iff.mp h
      obtain ⟨rm, hrm, hi⟩ := bind_eq_ok_iff.mp h
      exact ⟨rn, .register rm, (pure_eq_ok_iff.mp hi).symm,
        (anyOperand_eq_ok_iff hcount ha).mp hrn, (anyOperand_eq_ok_iff hcount hb).mp hrm, trivial⟩
  · rintro ⟨rn, source, rfl, ha', hb', hadm⟩
    cases source with
    | immediate n =>
      have hkind : b.kind = .immediate := hb'.kind_eq
      rw [if_pos hkind, bind_eq_ok_iff]
      refine ⟨rn, (lowOperand_eq_ok_iff hcount ha).mpr ⟨ha', hadm.1⟩, ?_⟩
      rw [bind_eq_ok_iff]
      exact ⟨n, (literalOperand_eq_ok_iff rfl (by decide) hb).mpr ⟨hb', hadm.2⟩, rfl⟩
    | register rm =>
      have hliteral : b.kind ≠ .immediate := by
        rw [hb'.kind_eq]
        nofun
      rw [if_neg hliteral, bind_eq_ok_iff]
      refine ⟨rn, (anyOperand_eq_ok_iff hcount ha).mpr ha', ?_⟩
      rw [bind_eq_ok_iff]
      exact ⟨rm, (anyOperand_eq_ok_iff hcount hb).mpr hb', rfl⟩

theorem decodeMove_eq_ok_iff {i : Instruction} :
    decodeMove count a b = .ok i ↔
      ∃ rd rm, i = .move rd rm ∧ a.Says (.register rd) ∧ b.Says (.register rm) := by
  rw [decodeMove, bind_eq_ok_iff]
  constructor
  · rintro ⟨rd, hrd, h⟩
    split at h
    · cases h
    · obtain ⟨rm, hrm, hi⟩ := bind_eq_ok_iff.mp h
      exact ⟨rd, rm, (pure_eq_ok_iff.mp hi).symm, (anyOperand_eq_ok_iff hcount ha).mp hrd,
        (anyOperand_eq_ok_iff hcount hb).mp hrm⟩
  · rintro ⟨rd, rm, rfl, ha', hb'⟩
    have hliteral : b.kind ≠ .immediate := by
      rw [hb'.kind_eq]
      nofun
    refine ⟨rd, (anyOperand_eq_ok_iff hcount ha).mpr ha', ?_⟩
    rw [if_neg hliteral, bind_eq_ok_iff]
    exact ⟨rm, (anyOperand_eq_ok_iff hcount hb).mpr hb', rfl⟩

end Several

end Instruction
end Thumb
