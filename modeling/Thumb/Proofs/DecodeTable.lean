import Thumb.Proofs.OperandReading
import Thumb.Proofs.OperandTable

/-! Decoding and the operand table agree: an instruction is read off tokens exactly when the tokens
say operands it can be written with, and every other list of tokens breaks a rule. -/
namespace Thumb
namespace Instruction

variable {count : Nat} {a b c : Token}

theorem matches_unary {i : Instruction} {x : Written} (hx : a.Says x) (h : i.HasForm [x]) :
    i.Matches [a] := ⟨[x], .cons hx .nil, h⟩

theorem matches_binary {i : Instruction} {x y : Written} (hx : a.Says x) (hy : b.Says y)
    (h : i.HasForm [x, y]) : i.Matches [a, b] := ⟨[x, y], .cons hx (.cons hy .nil), h⟩

theorem matches_ternary {i : Instruction} {x y z : Written} (hx : a.Says x) (hy : b.Says y)
    (hz : c.Says z) (h : i.HasForm [x, y, z]) : i.Matches [a, b, c] :=
  ⟨[x, y, z], .cons hx (.cons hy (.cons hz .nil)), h⟩

section Sound

variable {m : Mnemonic} {i : Instruction}
variable (hcount : 16 ≤ count) (ha : a.IsClassified) (hb : b.IsClassified) (hc : c.IsClassified)
include hcount ha

theorem decodeUnary_sound (h : decodeUnary m count a = .ok i) :
    i.mnemonic = m ∧ i.Matches [a] := by
  cases m with
  | b cond =>
    obtain ⟨label, hlabel, rfl⟩ := map_eq_ok_iff.mp h
    exact ⟨rfl, matches_unary (labelOperand_eq_ok_iff.mp hlabel) .branch⟩
  | bl =>
    obtain ⟨label, hlabel, rfl⟩ := map_eq_ok_iff.mp h
    exact ⟨rfl, matches_unary (labelOperand_eq_ok_iff.mp hlabel) .branchLink⟩
  | blx =>
    rw [decodeUnary] at h
    obtain ⟨rm, hrm, rfl⟩ := map_eq_ok_iff.mp h
    exact ⟨rfl, matches_unary ((anyOperand_eq_ok_iff hcount ha).mp hrm) .branchLinkExchange⟩
  | bx =>
    rw [decodeUnary] at h
    obtain ⟨rm, hrm, rfl⟩ := map_eq_ok_iff.mp h
    exact ⟨rfl, matches_unary ((anyOperand_eq_ok_iff hcount ha).mp hrm) .branchExchange⟩
  | _ => cases h

include hb

theorem lows_sound (make : Register → Register → Instruction)
    (hmake : ∀ {x y : Register}, x.isLow = true → y.isLow = true →
      (make x y).mnemonic = m ∧ (make x y).HasForm [.register x, .register y])
    (h : (twoLowOperands count a b).map (fun p => make p.1 p.2) = .ok i) :
    i.mnemonic = m ∧ i.Matches [a, b] := by
  obtain ⟨⟨x, y⟩, hpair, rfl⟩ := map_eq_ok_iff.mp h
  obtain ⟨⟨ha', hx⟩, hb', hy⟩ := (twoLowOperands_eq_ok_iff hcount ha hb).mp hpair
  obtain ⟨hm, hform⟩ := hmake hx hy
  exact ⟨hm, matches_binary ha' hb' hform⟩

theorem decodeBinary_sound (h : decodeBinary m count a b = .ok i) :
    i.mnemonic = m ∧ i.Matches [a, b] := by
  cases m with
  | cmn => exact lows_sound hcount ha hb .compareSum (fun hx hy => ⟨rfl, .compareSum hx hy⟩) h
  | cmp =>
    obtain ⟨rn, source, rfl, ha', hb', hadm⟩ := (decodeCompare_eq_ok_iff hcount ha hb).mp h
    cases source with
    | register rm => exact ⟨rfl, matches_binary ha' hb' .compareRegister⟩
    | immediate n =>
      have hn : n ≤ 255 := (ImmediateRange.admits_iff.mp hadm.2).1.2
      exact ⟨rfl, matches_binary ha' hb' (.compareLiteral hadm.1 hn)⟩
  | mov =>
    obtain ⟨rd, rm, rfl, ha', hb'⟩ := (decodeMove_eq_ok_iff hcount ha hb).mp h
    exact ⟨rfl, matches_binary ha' hb' .move⟩
  | movs =>
    obtain ⟨rd, hrd, h⟩ := bind_eq_ok_iff.mp h
    obtain ⟨source, hsource, hi⟩ := bind_eq_ok_iff.mp h
    obtain rfl := pure_eq_ok_iff.mp hi
    obtain ⟨ha', hlow⟩ := (lowOperand_eq_ok_iff hcount ha).mp hrd
    obtain ⟨hb', hadm⟩ := (literalOrLowOperand_eq_ok_iff rfl (by decide) hcount hb).mp hsource
    cases source with
    | register rm => exact ⟨rfl, matches_binary ha' hb' (.moveSetRegister hlow hadm)⟩
    | immediate n =>
      have hn : n ≤ 255 := (ImmediateRange.admits_iff.mp hadm).1.2
      exact ⟨rfl, matches_binary ha' hb' (.moveSetLiteral hlow hn)⟩
  | mrs =>
    obtain ⟨rd, hrd, h⟩ := bind_eq_ok_iff.mp h
    obtain ⟨special, hspecial, hi⟩ := bind_eq_ok_iff.mp h
    obtain rfl := pure_eq_ok_iff.mp hi
    obtain ⟨ha', hclass⟩ := (linkOrGeneral_eq_ok_iff hcount ha).mp hrd
    exact ⟨rfl, matches_binary ha' ((specialOperand_eq_ok_iff hb).mp hspecial)
      (.readSpecial hclass)⟩
  | msr =>
    obtain ⟨special, hspecial, h⟩ := bind_eq_ok_iff.mp h
    obtain ⟨rn, hrn, hi⟩ := bind_eq_ok_iff.mp h
    obtain rfl := pure_eq_ok_iff.mp hi
    obtain ⟨hb', hclass⟩ := (general_eq_ok_iff hcount hb).mp hrn
    exact ⟨rfl, matches_binary ((specialOperand_eq_ok_iff ha).mp hspecial) hb'
      (.writeSpecial hclass)⟩
  | mvns => exact lows_sound hcount ha hb .moveNot (fun hx hy => ⟨rfl, .moveNot hx hy⟩) h
  | rev => exact lows_sound hcount ha hb (.reverse .word) (fun hx hy => ⟨rfl, .reverse hx hy⟩) h
  | rev16 =>
    exact lows_sound hcount ha hb (.reverse .halfwords) (fun hx hy => ⟨rfl, .reverse hx hy⟩) h
  | revsh =>
    exact lows_sound hcount ha hb (.reverse .signedHalfword) (fun hx hy => ⟨rfl, .reverse hx hy⟩) h
  | sxtb => exact lows_sound hcount ha hb (.extend .sxtb) (fun hx hy => ⟨rfl, .extend hx hy⟩) h
  | sxth => exact lows_sound hcount ha hb (.extend .sxth) (fun hx hy => ⟨rfl, .extend hx hy⟩) h
  | tst => exact lows_sound hcount ha hb .test (fun hx hy => ⟨rfl, .test hx hy⟩) h
  | uxtb => exact lows_sound hcount ha hb (.extend .uxtb) (fun hx hy => ⟨rfl, .extend hx hy⟩) h
  | uxth => exact lows_sound hcount ha hb (.extend .uxth) (fun hx hy => ⟨rfl, .extend hx hy⟩) h
  | _ => cases h

include hc

theorem accumulate_sound (make : Register → Register → Instruction)
    (hmake : ∀ {x y : Register}, x.isLow = true → y.isLow = true →
      (make x y).mnemonic = m ∧ (make x y).HasForm [.register x, .register x, .register y])
    (h : (accumulating m count a b c).map (fun p => make p.1 p.2) = .ok i) :
    i.mnemonic = m ∧ i.Matches [a, b, c] := by
  obtain ⟨⟨x, y⟩, hpair, rfl⟩ := map_eq_ok_iff.mp h
  obtain ⟨⟨ha', hx⟩, hb', hc', hy⟩ := (accumulating_eq_ok_iff hcount ha hb hc).mp hpair
  obtain ⟨hm, hform⟩ := hmake hx hy
  exact ⟨hm, matches_ternary ha' hb' hc' hform⟩

/-- Registers that commute give a row when the instruction made of them is one in both orders. -/
theorem commute_sound (make : Register → Register → Instruction)
    (hmake : ∀ {x y : Register}, x.isLow = true → y.isLow = true →
      (make x y).mnemonic = m ∧ (make x y).HasForm [.register x, .register x, .register y] ∧
        (make x y).HasForm [.register x, .register y, .register x])
    (h : (commuting m count a b c).map (fun p => make p.1 p.2) = .ok i) :
    i.mnemonic = m ∧ i.Matches [a, b, c] := by
  obtain ⟨⟨x, y⟩, hpair, rfl⟩ := map_eq_ok_iff.mp h
  obtain ⟨ha', ⟨hx, hy⟩, hsources⟩ := (commuting_eq_ok_iff hcount ha hb hc).mp hpair
  obtain ⟨hm, hfirst, hsecond⟩ := hmake hx hy
  rcases hsources with ⟨hb', hc'⟩ | ⟨hb', hc'⟩
  · exact ⟨hm, matches_ternary ha' hb' hc' hfirst⟩
  · exact ⟨hm, matches_ternary ha' hb' hc' hsecond⟩

theorem decodeArith_sound {op : Arith} (h : decodeArith op count a b c = .ok i) :
    i.Matches [a, b, c] ∧ ∃ rd rn source, i = .arith op rd rn source := by
  obtain ⟨rd, rn, source, rfl, ⟨ha', hd⟩, ⟨hb', hs⟩, hc', hadm⟩ :=
    (decodeArith_eq_ok_iff hcount ha hb hc).mp h
  refine ⟨?_, rd, rn, source, rfl⟩
  cases source with
  | register rm => exact matches_ternary ha' hb' hc' (.arithRegister hd hs hadm)
  | immediate n =>
    have hn : n ≤ if rd = rn then 255 else 7 := by
      have hhigh := (ImmediateRange.admits_iff.mp hadm).1.2
      by_cases hsame : rd = rn
      · rw [if_pos hsame] at hhigh ⊢
        exact hhigh
      · rw [if_neg hsame] at hhigh ⊢
        exact hhigh
    exact matches_ternary ha' hb' hc' (.arithLiteral hd hs hn)

/-- A shift is a row when every literal that its range admits makes one. -/
theorem decodeShift_sound (op : Shift) {range : Constraint} {r : ImmediateRange}
    (hr : range.domain = .immediates r) (hstep : r.step ≠ 0)
    (hrow : ∀ {rd rm : Register} {n : Nat}, rd.isLow = true → rm.isLow = true →
      r.admits n = true →
      HasForm (.shift op rd rm n) [.register rd, .register rm, .literal n])
    (hliteral : ∀ {rd rm : Register} {n : Nat}, (shift op rd rm n).mnemonic = m)
    (hregister : ∀ {rd rm : Register}, (shiftBy op rd rm).mnemonic = m)
    (h : decodeShift op range m count a b c = .ok i) :
    i.mnemonic = m ∧ i.Matches [a, b, c] := by
  obtain ⟨rd, rm, source, ⟨ha', hd⟩, ⟨hb', hm⟩, ⟨hc', hadm⟩, hi⟩ :=
    (decodeShift_eq_ok_iff hcount ha hb hc hr hstep).mp h
  cases source with
  | register amount =>
    obtain ⟨rfl, rfl⟩ := hi
    exact ⟨hregister, matches_ternary ha' hb' hc' (.shiftBy hd hadm)⟩
  | immediate n =>
    obtain rfl := hi
    exact ⟨hliteral, matches_ternary ha' hb' hc' (hrow hd hm hadm)⟩

theorem decodeAdd_sound (h : decodeAdd count a b c = .ok i) :
    i.mnemonic = .add ∧ i.Matches [a, b, c] := by
  obtain ⟨rd, rn, source, rfl, ha', hb', hc', hadm⟩ := (decodeAdd_eq_ok_iff hcount ha hb hc).mp h
  refine ⟨rfl, ?_⟩
  cases source with
  | register rm => exact matches_ternary ha' hb' hc' (.addRegister hadm)
  | immediate n =>
    rcases hadm with ⟨⟨rfl, rfl⟩, hadm⟩ | ⟨⟨hd, hpointer⟩, hadm⟩
    · obtain ⟨⟨-, hn⟩, h4⟩ := ImmediateRange.admits_iff.mp hadm
      exact matches_ternary ha' hb' hc' (.addToSp hn (Nat.dvd_of_mod_eq_zero h4))
    · obtain ⟨⟨-, hn⟩, h4⟩ := ImmediateRange.admits_iff.mp hadm
      exact matches_ternary ha' hb' hc' (.addToPointer hd hpointer hn (Nat.dvd_of_mod_eq_zero h4))

theorem decodeTernary_sound (h : decodeTernary m count a b c = .ok i) :
    i.mnemonic = m ∧ i.Matches [a, b, c] := by
  have hcounting : ∀ (op : Shift), op ≠ .lsl → ∀ {rd rm : Register} {n : Nat}, rd.isLow = true →
      rm.isLow = true → ImmediateRange.admits ⟨1, 32, 1⟩ n = true →
      HasForm (.shift op rd rm n) [.register rd, .register rm, .literal n] := by
    intro op hop rd rm n hd hm hadm
    obtain ⟨⟨hpos, hn⟩, -⟩ := ImmediateRange.admits_iff.mp hadm
    exact .shiftRight hop hd hm hpos hn
  cases m with
  | adcs =>
    exact accumulate_sound hcount ha hb hc (.addCarry .add) (fun hx hy => ⟨rfl, .addCarry hx hy⟩) h
  | sbcs =>
    exact accumulate_sound hcount ha hb hc (.addCarry .sub) (fun hx hy => ⟨rfl, .addCarry hx hy⟩) h
  | bics =>
    exact accumulate_sound hcount ha hb hc (.bitwise .bic)
      (fun hx hy => ⟨rfl, .bitwiseFirst hx hy⟩) h
  | rors =>
    exact accumulate_sound hcount ha hb hc .rotateBy (fun hx hy => ⟨rfl, .rotateBy hx hy⟩) h
  | ands =>
    exact commute_sound hcount ha hb hc (.bitwise .and)
      (fun hx hy => ⟨rfl, .bitwiseFirst hx hy, .bitwiseSecond nofun hx hy⟩) h
  | eors =>
    exact commute_sound hcount ha hb hc (.bitwise .eor)
      (fun hx hy => ⟨rfl, .bitwiseFirst hx hy, .bitwiseSecond nofun hx hy⟩) h
  | orrs =>
    exact commute_sound hcount ha hb hc (.bitwise .orr)
      (fun hx hy => ⟨rfl, .bitwiseFirst hx hy, .bitwiseSecond nofun hx hy⟩) h
  | muls =>
    exact commute_sound hcount ha hb hc .multiply
      (fun hx hy => ⟨rfl, .multiplyFirst hx hy, .multiplySecond hx hy⟩) h
  | add => exact decodeAdd_sound hcount ha hb hc h
  | adds =>
    obtain ⟨hmatch, rd, rn, source, rfl⟩ := decodeArith_sound hcount ha hb hc h
    exact ⟨rfl, hmatch⟩
  | subs =>
    obtain ⟨hmatch, rd, rn, source, rfl⟩ := decodeArith_sound hcount ha hb hc h
    exact ⟨rfl, hmatch⟩
  | asrs =>
    exact decodeShift_sound hcount ha hb hc .asr rfl (by decide) (hcounting .asr nofun) rfl rfl h
  | lsrs =>
    exact decodeShift_sound hcount ha hb hc .lsr rfl (by decide) (hcounting .lsr nofun) rfl rfl h
  | lsls =>
    exact decodeShift_sound hcount ha hb hc .lsl rfl (by decide)
      (fun hd hm hadm => .shiftLeft hd hm (ImmediateRange.admits_iff.mp hadm).1.2) rfl rfl h
  | rsbs =>
    obtain ⟨rd, rn, rfl, ⟨ha', hd⟩, ⟨hb', hs⟩, hc'⟩ := (decodeNegate_eq_ok_iff hcount ha hb hc).mp h
    exact ⟨rfl, matches_ternary ha' hb' hc' (.negate hd hs)⟩
  | sub =>
    obtain ⟨n, rfl, ha', hb', hc', hadm⟩ := (decodeSub_eq_ok_iff hcount ha hb hc).mp h
    obtain ⟨⟨-, hn⟩, h4⟩ := ImmediateRange.admits_iff.mp hadm
    exact ⟨rfl, matches_ternary ha' hb' hc' (.subSp hn (Nat.dvd_of_mod_eq_zero h4))⟩
  | _ => cases h

end Sound

section Complete

variable {i : Instruction} {x y z : Written}
variable (hcount : 16 ≤ count) (ha : a.IsClassified) (hb : b.IsClassified) (hc : c.IsClassified)
include hcount ha

theorem decodeUnary_complete (hx : a.Says x) (h : i.HasForm [x]) :
    decodeUnary i.mnemonic count a = .ok i := by
  cases h with
  | branch => exact map_eq_ok_iff.mpr ⟨_, labelOperand_eq_ok_iff.mpr hx, rfl⟩
  | branchLink => exact map_eq_ok_iff.mpr ⟨_, labelOperand_eq_ok_iff.mpr hx, rfl⟩
  | branchLinkExchange =>
    rw [mnemonic, decodeUnary, (anyOperand_eq_ok_iff hcount ha).mpr hx]
    rfl
  | branchExchange =>
    rw [mnemonic, decodeUnary, (anyOperand_eq_ok_iff hcount ha).mpr hx]
    rfl

include hb

theorem lows_complete (make : Register → Register → Instruction) {r r' : Register}
    (hx : a.Says (.register r)) (hr : r.isLow = true) (hy : b.Says (.register r'))
    (hr' : r'.isLow = true) :
    (twoLowOperands count a b).map (fun p => make p.1 p.2) = .ok (make r r') :=
  map_eq_ok_iff.mpr ⟨(r, r'), (twoLowOperands_eq_ok_iff hcount ha hb).mpr ⟨⟨hx, hr⟩, hy, hr'⟩, rfl⟩

theorem decodeBinary_complete (hx : a.Says x) (hy : b.Says y) (h : i.HasForm [x, y]) :
    decodeBinary i.mnemonic count a b = .ok i := by
  cases h with
  | move => exact (decodeMove_eq_ok_iff hcount ha hb).mpr ⟨_, _, rfl, hx, hy⟩
  | @moveSetRegister rd rm hd hm =>
    refine bind_eq_ok_iff.mpr ⟨rd, (lowOperand_eq_ok_iff hcount ha).mpr ⟨hx, hd⟩, ?_⟩
    have hsource : Operand.IsLowOrIn ⟨0, 255, 1⟩ (.register rm) := hm
    exact bind_eq_ok_iff.mpr ⟨.register rm,
      (literalOrLowOperand_eq_ok_iff rfl (by decide) hcount hb).mpr ⟨hy, hsource⟩, rfl⟩
  | @moveSetLiteral rd n hd hn =>
    refine bind_eq_ok_iff.mpr ⟨rd, (lowOperand_eq_ok_iff hcount ha).mpr ⟨hx, hd⟩, ?_⟩
    have hadm := ImmediateRange.admits_of_le (Nat.zero_le n) hn
    exact bind_eq_ok_iff.mpr ⟨.immediate n,
      (literalOrLowOperand_eq_ok_iff rfl (by decide) hcount hb).mpr ⟨hy, hadm⟩, rfl⟩
  | moveNot hd hm => exact lows_complete hcount ha hb .moveNot hx hd hy hm
  | @compareRegister rn rm =>
    exact (decodeCompare_eq_ok_iff hcount ha hb).mpr ⟨rn, .register rm, rfl, hx, hy, trivial⟩
  | @compareLiteral rn n hs hn =>
    have hadm := ImmediateRange.admits_of_le (Nat.zero_le n) hn
    exact (decodeCompare_eq_ok_iff hcount ha hb).mpr ⟨rn, .immediate n, rfl, hx, hy, hs, hadm⟩
  | compareSum hs hm => exact lows_complete hcount ha hb .compareSum hx hs hy hm
  | test hs hm => exact lows_complete hcount ha hb .test hx hs hy hm
  | @reverse op _ _ hd hm =>
    have h := lows_complete hcount ha hb (.reverse op) hx hd hy hm
    cases op <;> exact h
  | @extend op _ _ hd hm =>
    have h := lows_complete hcount ha hb (.extend op) hx hd hy hm
    cases op <;> exact h
  | @readSpecial rd special hd =>
    refine bind_eq_ok_iff.mpr ⟨rd, (linkOrGeneral_eq_ok_iff hcount ha).mpr ⟨hx, hd⟩, ?_⟩
    exact bind_eq_ok_iff.mpr ⟨special, (specialOperand_eq_ok_iff hb).mpr hy, rfl⟩
  | @writeSpecial special rn hs =>
    refine bind_eq_ok_iff.mpr ⟨special, (specialOperand_eq_ok_iff ha).mpr hx, ?_⟩
    exact bind_eq_ok_iff.mpr ⟨rn, (general_eq_ok_iff hcount hb).mpr ⟨hy, hs⟩, rfl⟩

include hc

theorem accumulate_complete (m : Mnemonic) (make : Register → Register → Instruction)
    {r r' : Register} (hr : r.isLow = true) (hr' : r'.isLow = true) (hx : a.Says (.register r))
    (hy : b.Says (.register r)) (hz : c.Says (.register r')) :
    (accumulating m count a b c).map (fun p => make p.1 p.2) = .ok (make r r') :=
  map_eq_ok_iff.mpr ⟨(r, r'),
    (accumulating_eq_ok_iff hcount ha hb hc).mpr ⟨⟨hx, hr⟩, hy, hz, hr'⟩, rfl⟩

theorem commute_complete (m : Mnemonic) (make : Register → Register → Instruction) {r r' : Register}
    (hr : r.isLow = true) (hr' : r'.isLow = true) (hx : a.Says (.register r))
    (h : b.Says (.register r) ∧ c.Says (.register r') ∨
      b.Says (.register r') ∧ c.Says (.register r)) :
    (commuting m count a b c).map (fun p => make p.1 p.2) = .ok (make r r') :=
  map_eq_ok_iff.mpr ⟨(r, r'),
    (commuting_eq_ok_iff hcount ha hb hc).mpr ⟨hx, ⟨hr, hr'⟩, h⟩, rfl⟩

theorem decodeArith_complete {op : Arith} {rd rn : Register} {source : Operand}
    (hx : a.Says (.register rd) ∧ rd.isLow = true) (hy : b.Says (.register rn) ∧ rn.isLow = true)
    (hz : c.Says source.written)
    (hsource : source.IsLowOrIn (if rd = rn then ⟨0, 255, 1⟩ else ⟨0, 7, 1⟩)) :
    decodeTernary (arith op rd rn source).mnemonic count a b c = .ok (.arith op rd rn source) := by
  have h : decodeArith op count a b c = .ok (.arith op rd rn source) :=
    (decodeArith_eq_ok_iff hcount ha hb hc).mpr ⟨rd, rn, source, rfl, hx, hy, hz, hsource⟩
  cases op <;> exact h

theorem decodeTernary_complete (hx : a.Says x) (hy : b.Says y) (hz : c.Says z)
    (h : i.HasForm [x, y, z]) : decodeTernary i.mnemonic count a b c = .ok i := by
  cases h with
  | @addCarry op _ _ hd hm =>
    cases op with
    | add => exact accumulate_complete hcount ha hb hc .adcs (.addCarry .add) hd hm hx hy hz
    | sub => exact accumulate_complete hcount ha hb hc .sbcs (.addCarry .sub) hd hm hx hy hz
  | @addRegister rd rn rm h =>
    exact (decodeAdd_eq_ok_iff hcount ha hb hc).mpr ⟨rd, rn, .register rm, rfl, hx, hy, hz, h⟩
  | @addToSp n hn h4 =>
    have hadm := ImmediateRange.admits_of_dvd hn h4
    exact (decodeAdd_eq_ok_iff hcount ha hb hc).mpr
      ⟨.sp, .sp, .immediate n, rfl, hx, hy, hz, .inl ⟨⟨rfl, rfl⟩, hadm⟩⟩
  | @addToPointer rd rn n hd h hn h4 =>
    have hadm := ImmediateRange.admits_of_dvd hn h4
    exact (decodeAdd_eq_ok_iff hcount ha hb hc).mpr
      ⟨rd, rn, .immediate n, rfl, hx, hy, hz, .inr ⟨⟨hd, h⟩, hadm⟩⟩
  | @arithRegister op rd rn rm hd hs hm =>
    exact decodeArith_complete hcount ha hb hc ⟨hx, hd⟩ ⟨hy, hs⟩ hz hm
  | @arithLiteral op rd rn n hd hs hn =>
    refine decodeArith_complete hcount ha hb hc ⟨hx, hd⟩ ⟨hy, hs⟩ hz ?_
    by_cases hsame : rd = rn
    · rw [if_pos hsame] at hn ⊢
      exact ImmediateRange.admits_of_le (Nat.zero_le n) hn
    · rw [if_neg hsame] at hn ⊢
      exact ImmediateRange.admits_of_le (Nat.zero_le n) hn
  | negate hd hs =>
    exact (decodeNegate_eq_ok_iff hcount ha hb hc).mpr ⟨_, _, rfl, ⟨hx, hd⟩, ⟨hy, hs⟩, hz⟩
  | @subSp n hn h4 =>
    have hadm := ImmediateRange.admits_of_dvd hn h4
    exact (decodeSub_eq_ok_iff hcount ha hb hc).mpr ⟨n, rfl, hx, hy, hz, hadm⟩
  | multiplyFirst hd hs =>
    exact commute_complete hcount ha hb hc .muls .multiply hd hs hx (.inl ⟨hy, hz⟩)
  | multiplySecond hd hs =>
    exact commute_complete hcount ha hb hc .muls .multiply hd hs hx (.inr ⟨hy, hz⟩)
  | @bitwiseFirst op _ _ hd hm =>
    cases op with
    | bic => exact accumulate_complete hcount ha hb hc .bics (.bitwise .bic) hd hm hx hy hz
    | and => exact commute_complete hcount ha hb hc .ands (.bitwise .and) hd hm hx (.inl ⟨hy, hz⟩)
    | eor => exact commute_complete hcount ha hb hc .eors (.bitwise .eor) hd hm hx (.inl ⟨hy, hz⟩)
    | orr => exact commute_complete hcount ha hb hc .orrs (.bitwise .orr) hd hm hx (.inl ⟨hy, hz⟩)
  | @bitwiseSecond op _ _ hop hd hm =>
    cases op with
    | bic => exact absurd rfl hop
    | and => exact commute_complete hcount ha hb hc .ands (.bitwise .and) hd hm hx (.inr ⟨hy, hz⟩)
    | eor => exact commute_complete hcount ha hb hc .eors (.bitwise .eor) hd hm hx (.inr ⟨hy, hz⟩)
    | orr => exact commute_complete hcount ha hb hc .orrs (.bitwise .orr) hd hm hx (.inr ⟨hy, hz⟩)
  | @shiftLeft rd rm n hd hm hn =>
    have hadm := ImmediateRange.admits_of_le (Nat.zero_le n) hn
    exact (decodeShift_eq_ok_iff hcount ha hb hc rfl (by decide)).mpr
      ⟨rd, rm, .immediate n, ⟨hx, hd⟩, ⟨hy, hm⟩, ⟨hz, hadm⟩, rfl⟩
  | @shiftRight op rd rm n hop hd hm hpos hn =>
    have hadm := ImmediateRange.admits_of_le hpos hn
    cases op with
    | lsl => exact absurd rfl hop
    | lsr =>
      exact (decodeShift_eq_ok_iff hcount ha hb hc rfl (by decide)).mpr
        ⟨rd, rm, .immediate n, ⟨hx, hd⟩, ⟨hy, hm⟩, ⟨hz, hadm⟩, rfl⟩
    | asr =>
      exact (decodeShift_eq_ok_iff hcount ha hb hc rfl (by decide)).mpr
        ⟨rd, rm, .immediate n, ⟨hx, hd⟩, ⟨hy, hm⟩, ⟨hz, hadm⟩, rfl⟩
  | @shiftBy op rd rm hd hm =>
    cases op <;>
      exact (decodeShift_eq_ok_iff hcount ha hb hc rfl (by decide)).mpr
        ⟨rd, rd, .register rm, ⟨hx, hd⟩, ⟨hy, hd⟩, ⟨hz, hm⟩, rfl, rfl⟩
  | rotateBy hd hm => exact accumulate_complete hcount ha hb hc .rors .rotateBy hd hm hx hy hz

end Complete

/-- Instructions are read off exactly the rows of the table of their mnemonic. -/
theorem decode_eq_ok_iff {m : Mnemonic} {tokens : List Token} {i : Instruction}
    (hcount : 16 ≤ count) (ht : ∀ t ∈ tokens, t.IsClassified) :
    decode m count tokens = .ok i ↔ i.mnemonic = m ∧ i.Matches tokens := by
  rcases tokens with _ | ⟨a, _ | ⟨b, _ | ⟨c, _ | ⟨d, rest⟩⟩⟩⟩
  · rw [decode, guard_eq_ok_iff]
    constructor
    · rintro ⟨rfl, rfl⟩
      exact ⟨rfl, [], .nil, .nop⟩
    · rintro ⟨rfl, ws, hws, hform⟩
      cases hws
      cases hform
      exact ⟨rfl, rfl⟩
  · have ha := ht a (by simp)
    constructor
    · exact decodeUnary_sound hcount ha
    · rintro ⟨rfl, ws, hws, hform⟩
      obtain _ | ⟨hx, ⟨⟩⟩ := hws
      exact decodeUnary_complete hcount ha hx hform
  · have ha := ht a (by simp)
    have hb := ht b (by simp)
    constructor
    · exact decodeBinary_sound hcount ha hb
    · rintro ⟨rfl, ws, hws, hform⟩
      obtain _ | ⟨hx, _ | ⟨hy, ⟨⟩⟩⟩ := hws
      exact decodeBinary_complete hcount ha hb hx hy hform
  · have ha := ht a (by simp)
    have hb := ht b (by simp)
    have hc := ht c (by simp)
    constructor
    · exact decodeTernary_sound hcount ha hb hc
    · rintro ⟨rfl, ws, hws, hform⟩
      obtain _ | ⟨hx, _ | ⟨hy, _ | ⟨hz, ⟨⟩⟩⟩⟩ := hws
      exact decodeTernary_complete hcount ha hb hc hx hy hz hform
  · -- no row has four operands
    constructor
    · intro h
      cases h
    · rintro ⟨-, ws, hws, hform⟩
      obtain _ | ⟨-, _ | ⟨-, _ | ⟨-, _ | ⟨-, -⟩⟩⟩⟩ := hws
      cases hform

/-- Decoding accepts exactly the operand table. On a machine with the architectural registers,
sorted tokens decode to an instruction when they say operands of one of its rows and the mnemonic is
its name; when no row fits, a rule is broken. -/
theorem decode_agrees_with_table {m : Mnemonic} {tokens : List Token} (hcount : 16 ≤ count)
    (ht : ∀ t ∈ tokens, ∃ text, Token.classify m.takesLabel text = .ok t) :
    (∀ i, decode m count tokens = .ok i ↔
      i.mnemonic = m ∧ ∃ ws, List.Forall₂ Token.Says tokens ws ∧ i.HasForm ws) ∧
    ((¬∃ i ws, mnemonic i = m ∧ List.Forall₂ Token.Says tokens ws ∧ i.HasForm ws) →
      ∃ e, (decode m count tokens).mapError Error.rule = .error (.rule e)) := by
  have hclassified : ∀ t ∈ tokens, t.IsClassified := by
    intro t hmem
    exact ⟨m.takesLabel, ht t hmem⟩
  refine ⟨fun i => decode_eq_ok_iff hcount hclassified, ?_⟩
  intro hnone
  have hne : ∀ i, decode m count tokens ≠ .ok i := by
    intro i hi
    obtain ⟨hm, ws, hws, hform⟩ := (decode_eq_ok_iff hcount hclassified).mp hi
    exact hnone ⟨i, ws, hm, hws, hform⟩
  obtain ⟨e, he⟩ := exists_error_of_forall_ne_ok hne
  exact ⟨e, by rw [he]; rfl⟩

/-- A literal above seven fits `ADDS` since destination and source coincide. -/
theorem decode_agrees_with_table_adds :
    (∀ t ∈ [Token.mk .register "R1", ⟨.register, "R1"⟩, ⟨.immediate, "#200"⟩],
      ∃ text, Token.classify Mnemonic.adds.takesLabel text = .ok t) ∧
    decode .adds 16 [⟨.register, "R1"⟩, ⟨.register, "R1"⟩, ⟨.immediate, "#200"⟩] =
      .ok (.arith .add .r1 .r1 (.immediate 200)) := by
  have ht : ∀ t ∈ [Token.mk .register "R1", ⟨.register, "R1"⟩, ⟨.immediate, "#200"⟩],
      ∃ text, Token.classify Mnemonic.adds.takesLabel text = .ok t := by
    intro t hmem
    refine ⟨t.text, ?_⟩
    revert t
    decide +kernel
  refine ⟨ht, ((decode_agrees_with_table (by decide) ht).1 _).mpr
    ⟨rfl, [.register .r1, .register .r1, .literal 200], ?_, .arithLiteral rfl rfl (by decide)⟩⟩
  refine .cons (.register ?_) (.cons (.register ?_) (.cons (.literal ?_) .nil)) <;> decide +kernel

end Instruction
end Thumb
