import Thumb.Proofs.Extensions

/-! Reversals of bytes. A register is as good as the list of its bytes, so that whatever moves the bytes
about is told by the byte that comes to each place, and undone where the list is put back. -/
namespace Thumb

/-- Byte `i` of a number, the lowest being byte zero. -/
def byteOf (n i : ℕ) : ℕ := n / 256 ^ i % 256

/-- The other byte of the halfword that byte `i` is in. -/
def otherByte (i : ℕ) : ℕ := if i % 2 = 0 then i + 1 else i - 1

def swappedHalfword (n : ℕ) : ℕ := 256 * byteOf n 0 + byteOf n 1

theorem two_bytes {n : ℕ} (h : n < 2 ^ 16) : 256 * byteOf n 1 + byteOf n 0 = n := by
  rw [byteOf, byteOf, pow_one, pow_zero]
  omega

theorem byteOf_mod (n : ℕ) {i : ℕ} (hi : i < 2) : byteOf (n % 2 ^ 16) i = byteOf n i := by
  have hcases : i = 0 ∨ i = 1 := by omega
  rcases hcases with rfl | rfl
  · rw [byteOf, byteOf, pow_zero]
    omega
  · rw [byteOf, byteOf, pow_one]
    omega

section Words

variable {w : ℕ}

theorem bytes_ofBytes {bs : List (BitVec 8)} (h : bs.length = w / 8) : bytes (ofBytes w bs) = bs := by
  apply List.ext_getElem
  · rw [length_bytes, h]
  · intro k hk hk'
    rw [length_bytes] at hk
    apply BitVec.eq_of_getLsbD_eq
    intro j hj
    have hdiv : (8 * k + j) / 8 = k := by omega
    have hmod : (8 * k + j) % 8 = j := by omega
    simp only [bytes, List.getElem_map, List.getElem_range, BitVec.getLsbD_extractLsb',
      getLsbD_ofBytes, hdiv, hmod, hj, show 8 * k + j < w by omega, decide_true, Bool.true_and]
    rw [List.getD_eq_getElem _ _ hk']

theorem ofBytes_bytes (h8 : 8 ∣ w) (v : BitVec w) : ofBytes w (bytes v) = v := by
  apply BitVec.eq_of_getLsbD_eq
  intro j hj
  have hplace : 8 * (j / 8) + j % 8 = j := by omega
  simp only [getLsbD_ofBytes, getD_bytes, if_pos (show j / 8 < w / 8 by omega),
    BitVec.getLsbD_extractLsb', hplace, hj, Nat.mod_lt j (show 8 > 0 by decide), decide_true,
    Bool.true_and]

@[simp] theorem length_swapPairs {α : Type} (as : List α) : (swapPairs as).length = as.length := by
  induction as using swapPairs.induct with
  | case1 a b rest ih => simp [swapPairs, ih]
  | case2 rest hno =>
    rcases rest with _ | ⟨a, _ | ⟨b, rest⟩⟩
    · rfl
    · rfl
    · exact absurd rfl (hno a b rest)

theorem toNat_getD_bytes (v : BitVec w) {i : ℕ} (hi : i < w / 8) :
    ((bytes v).getD i 0).toNat = byteOf v.toNat i := by
  have hpow : 2 ^ (8 * i) = 256 ^ i := Nat.pow_mul 2 8 i
  rw [getD_bytes, if_pos hi, BitVec.extractLsb'_toNat, Nat.shiftRight_eq_div_pow, hpow]
  rfl

end Words

namespace Reversal

variable {w : ℕ}

theorem bytes_eval_word (v : BitVec w) : bytes (word.eval v) = (bytes v).reverse :=
  bytes_ofBytes (by simp)

theorem bytes_eval_halfwords (v : BitVec w) : bytes (halfwords.eval v) = swapPairs (bytes v) :=
  bytes_ofBytes (by simp)

theorem involutive_word (h8 : 8 ∣ w) : Function.Involutive (word.eval : BitVec w → BitVec w) := by
  intro v
  rw [eval, bytes_eval_word, List.reverse_reverse, ofBytes_bytes h8]

theorem involutive_halfwords (h8 : 8 ∣ w) :
    Function.Involutive (halfwords.eval : BitVec w → BitVec w) := by
  intro v
  rw [eval, bytes_eval_halfwords, swapPairs_swapPairs, ofBytes_bytes h8]

theorem byteOf_eval_word (v : BitVec w) {i : ℕ} (hi : i < w / 8) :
    byteOf (word.eval v).toNat i = byteOf v.toNat (w / 8 - 1 - i) := by
  rw [← toNat_getD_bytes _ hi, bytes_eval_word, getD_reverse_bytes, if_pos hi,
    ← toNat_getD_bytes v (by omega), getD_bytes, if_pos (by omega)]

theorem byteOf_eval_halfwords (h16 : 16 ∣ w) (v : BitVec w) {i : ℕ} (hi : i < w / 8) :
    byteOf (halfwords.eval v).toNat i = byteOf v.toNat (otherByte i) := by
  have hpairs : 2 ∣ (bytes v).length := by
    rw [length_bytes]
    omega
  have hother : otherByte i < w / 8 := by
    unfold otherByte
    split <;> omega
  rw [← toNat_getD_bytes _ hi, bytes_eval_halfwords, getD_swapPairs _ _ hpairs,
    ← toNat_getD_bytes v hother]
  rfl

theorem toNat_eval_word_halfword (v : BitVec w) :
    (word.eval (v.setWidth 16)).toNat = swappedHalfword v.toNat := by
  have hhigh := byteOf_eval_word (v.setWidth 16) (show 1 < 16 / 8 by decide)
  have hlow := byteOf_eval_word (v.setWidth 16) (show 0 < 16 / 8 by decide)
  rw [← two_bytes (word.eval (v.setWidth 16)).isLt, hhigh, hlow, BitVec.toNat_setWidth]
  exact congrArg₂ _ (congrArg _ (byteOf_mod _ (by decide))) (byteOf_mod _ (by decide))

theorem eval_signedHalfword (v : BitVec w) :
    signedHalfword.eval v = (word.eval (v.setWidth 16)).signExtend w := rfl

/-- The second time the halfword is put in order again, and only its sign has been extended. -/
theorem eval_signedHalfword_eval_signedHalfword (hw : 16 ≤ w) (v : BitVec w) :
    signedHalfword.eval (signedHalfword.eval v) = Extension.sxth.eval v := by
  rw [eval_signedHalfword, eval_signedHalfword, setWidth_signExtend hw,
    involutive_word (by decide)]
  rfl

end Reversal

namespace Host

/-- On what a register of `w` bits can hold the operation moves bytes: byte `source i` comes to place
`i`. It stays below `2 ^ w`, undoes itself, and so comes to every word once. -/
structure PermutesBytes (f : Word → Option Word) (w : ℕ) (source : ℕ → ℕ) : Prop where
  moves : ∀ u : Word, u.toNat < 2 ^ w → ∃ r, f u = some r ∧ r.toNat < 2 ^ w ∧
    (∀ i < w / 8, byteOf r.toNat i = byteOf u.toNat (source i)) ∧ f r = some u
  bijective : ∀ r : Word, r.toNat < 2 ^ w → ∃! u : Word, u.toNat < 2 ^ w ∧ f u = some r

theorem permutesBytes_of_involutive {f : Word → Option Word} {w : ℕ} {source : ℕ → ℕ}
    {op : BitVec w → BitVec w} (hw : w ≤ 64) (hop : Function.Involutive op)
    (hf : ∀ v, f (widen v) = some (widen (op v)))
    (hbytes : ∀ v, ∀ i < w / 8, byteOf (op v).toNat i = byteOf v.toNat (source i)) :
    PermutesBytes f w source := by
  have hmoves (u : Word) (hu : u.toNat < 2 ^ w) : ∃ r, f u = some r ∧ r.toNat < 2 ^ w ∧
      (∀ i < w / 8, byteOf r.toNat i = byteOf u.toNat (source i)) ∧ f r = some u := by
    obtain ⟨v, rfl⟩ : ∃ v : BitVec w, widen v = u := ⟨_, widen_narrow hu⟩
    refine ⟨_, hf v, ?_, ?_, ?_⟩
    · rw [toNat_widen hw]
      exact (op v).isLt
    · rw [toNat_widen hw, toNat_widen hw]
      exact hbytes v
    · rw [hf, hop]
  refine ⟨hmoves, ?_⟩
  intro r hr
  obtain ⟨u, hu, hlt, -, hback⟩ := hmoves r hr
  refine ⟨u, ⟨hlt, hback⟩, ?_⟩
  rintro u' ⟨hlt', hu'⟩
  -- the operation leads back from where it has led, so only one word leads to `r`
  obtain ⟨r', hr', -, -, hback'⟩ := hmoves u' hlt'
  cases hu'.symm.trans hr'
  exact Option.some.inj (hback'.symm.trans hu)

end Host

variable {s : Shape}

namespace Machine

/-- Reversals of bytes are exact at every width. All bytes of a register are put in the opposite order,
or the bytes of each halfword exchanged, nothing is put above the width, and doing it again undoes it;
`REV` and `REV16` put just that into their destination. `REVSH` puts there what fills a register with
the signed reading of the lowest two bytes of its source, exchanged; the other bytes do not count, and
two of them in a row do what `SXTH` does. -/
theorem reversals_are_exact (m : Machine s) :
    Host.PermutesBytes (fun u => Host.reverseBytes? u s.bits) s.bits
      (fun i => s.bits / 8 - 1 - i) ∧
    Host.PermutesBytes (fun u => Host.reverseHalfwords? u s.bits) s.bits otherByte ∧
    (∀ rd rm, ∃ v m', m.Puts (.reverse .word rd rm) rd v m' ∧
      Host.reverseBytes? (Host.widen (m.registers.get rm)) s.bits = some (Host.widen v)) ∧
    (∀ rd rm, ∃ v m', m.Puts (.reverse .halfwords rd rm) rd v m' ∧
      Host.reverseHalfwords? (Host.widen (m.registers.get rm)) s.bits = some (Host.widen v)) ∧
    (∀ rd rm, ∃ v m', m.Puts (.reverse .signedHalfword rd rm) rd v m' ∧
      (v.toNat : ℤ) =
        signed 16 (swappedHalfword (m.registers.get rm).toNat) % 2 ^ s.bits) ∧
    ∀ rd rt rm, ∃ u v m₁ m₂ m', m.Puts (.reverse .signedHalfword rt rm) rt u m₁ ∧
      m₁.Puts (.reverse .signedHalfword rd rt) rd v m₂ ∧ m.Puts (.extend .sxth rd rm) rd v m' := by
  have hwide := s.sixteen_le_bits
  have h16 := s.sixteen_dvd_bits
  have h8 : 8 ∣ s.bits := Dvd.dvd.trans (by decide) h16
  have hputs (m : Machine s) (op : Reversal) (rd rm : Register) :
      ∃ m', m.Puts (.reverse op rd rm) rd (op.eval (m.registers.get rm)) m' := m.exists_puts rfl rfl
  refine ⟨?_, ?_, ?_, ?_, ?_, ?_⟩
  · exact Host.permutesBytes_of_involutive s.bits_le (Reversal.involutive_word h8)
      (Host.reverseBytes?_widen s.bits_le h8) fun v _ => Reversal.byteOf_eval_word v
  · exact Host.permutesBytes_of_involutive s.bits_le (Reversal.involutive_halfwords h8)
      (Host.reverseHalfwords?_widen s.bits_le h16) fun v _ => Reversal.byteOf_eval_halfwords h16 v
  · intro rd rm
    obtain ⟨m', hm'⟩ := hputs m .word rd rm
    exact ⟨_, m', hm', Host.reverseBytes?_widen s.bits_le h8 _⟩
  · intro rd rm
    obtain ⟨m', hm'⟩ := hputs m .halfwords rd rm
    exact ⟨_, m', hm', Host.reverseHalfwords?_widen s.bits_le h16 _⟩
  · intro rd rm
    obtain ⟨m', hm'⟩ := hputs m .signedHalfword rd rm
    refine ⟨_, m', hm', ?_⟩
    rw [Reversal.eval_signedHalfword, toNat_signExtend_eq (by decide),
      Reversal.toNat_eval_word_halfword]
  · intro rd rt rm
    obtain ⟨m₁, hm₁⟩ := hputs m .signedHalfword rt rm
    obtain ⟨m₂, hm₂⟩ := hputs m₁ .signedHalfword rd rt
    obtain ⟨m', hm'⟩ := m.exists_puts_extend .sxth rd rm
    rw [hm₁.get_eq, Reversal.eval_signedHalfword_eval_signedHalfword hwide] at hm₂
    exact ⟨_, _, m₁, m₂, m', hm₁, hm₂, hm'⟩

def sixBytes : Machine (.architectural .w48) := (new _).after (.edit (.named "R0" 0x123456789abc))

theorem reversals_are_exact_sixBytes :
    (∃ v m', sixBytes.Puts (.reverse .word .r1 .r0) .r1 v m' ∧ v = 0xbc9a78563412) ∧
    (∃ r, Host.reverseBytes? 0x123456789abc 48 = some r ∧ byteOf r.toNat 5 = 0xbc ∧
      Host.reverseBytes? r 48 = some 0x123456789abc) ∧
    (∃ v m', sixBytes.Puts (.reverse .signedHalfword .r1 .r0) .r1 v m' ∧
      v.toNat = 0xffffffffbc9a) ∧
    ∃ u v m₁ m₂ m', sixBytes.Puts (.reverse .signedHalfword .r1 .r0) .r1 u m₁ ∧
      m₁.Puts (.reverse .signedHalfword .r1 .r1) .r1 v m₂ ∧
      sixBytes.Puts (.extend .sxth .r1 .r0) .r1 v m' := by
  obtain ⟨hpermutes, -, hword, -, hsigned, htwice⟩ := reversals_are_exact sixBytes
  have hsource : (sixBytes.registers.get .r0).toNat = 0x123456789abc := by decide +kernel
  refine ⟨?_, ?_, ?_, htwice .r1 .r1 .r0⟩
  · obtain ⟨v, m', hm', hreverse⟩ := hword .r1 .r0
    have hvalue : Host.reverseBytes? (Host.widen (sixBytes.registers.get .r0)) 48 =
        some (Host.widen (0xbc9a78563412 : BitVec 48)) := by decide +kernel
    exact ⟨v, m', hm', (Host.widen_inj (by decide)).mp (Option.some.inj (hreverse.symm.trans hvalue))⟩
  · obtain ⟨r, hr, -, hbytes, hback⟩ := hpermutes.moves 0x123456789abc (by decide +kernel)
    have hfirst := hbytes 5 (by decide)
    refine ⟨r, hr, ?_, hback⟩
    rw [hfirst]
    decide +kernel
  · obtain ⟨v, m', hm', hnumber⟩ := hsigned .r1 .r0
    have hvalue : signed 16 (swappedHalfword 0x123456789abc) %
        2 ^ (Shape.architectural .w48).bits = 0xffffffffbc9a := by decide +kernel
    rw [hsource] at hnumber
    exact ⟨v, m', hm', Int.natCast_inj.mp (hnumber.trans hvalue)⟩

end Machine
end Thumb
