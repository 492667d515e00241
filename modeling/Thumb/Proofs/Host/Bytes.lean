import Thumb.Bytes
import Thumb.Proofs.Host.Words

/-! Byte reversals and sign extensions in words of 64 bits. A word put together from bytes has the
bits of the byte that each place belongs to, whichever way it is put together. -/
namespace Thumb

theorem getLsbD_ofBytes (w : ℕ) (bs : List (BitVec 8)) (j : ℕ) :
    (ofBytes w bs).getLsbD j = (decide (j < w) && (bs.getD (j / 8) 0).getLsbD (j % 8)) := by
  induction bs generalizing j with
  | nil => simp [ofBytes]
  | cons b bs ih =>
    change (ofBytes w bs <<< 8 ||| b.setWidth w).getLsbD j = _
    rw [BitVec.getLsbD_or, BitVec.getLsbD_shiftLeft, BitVec.getLsbD_setWidth, ih]
    by_cases hj : j < 8
    · simp [hj, Nat.div_eq_of_lt hj, Nat.mod_eq_of_lt hj]
    · obtain ⟨k, rfl⟩ : ∃ k, j = k + 8 := ⟨j - 8, by omega⟩
      by_cases hw : k + 8 < w
      · simp [hw, show k < w by omega]
      · simp [hw]

theorem getD_bytes {w : ℕ} (v : BitVec w) (k : ℕ) :
    (bytes v).getD k 0 = if k < w / 8 then v.extractLsb' (8 * k) 8 else 0 := by
  by_cases hk : k < w / 8 <;> simp [bytes, hk]

theorem getD_reverse_bytes {w : ℕ} (v : BitVec w) (k : ℕ) :
    (bytes v).reverse.getD k 0 =
      if k < w / 8 then v.extractLsb' (8 * (w / 8 - 1 - k)) 8 else 0 := by
  by_cases hk : k < w / 8
  · rw [if_pos hk, List.getD_eq_getElem?_getD, List.getElem?_reverse (by simpa using hk)]
    simp [bytes, show w / 8 - 1 - k < w / 8 by omega]
  · simp [hk]

theorem getD_swapPairs {α : Type} (d : α) (as : List α) (h : 2 ∣ as.length) (k : ℕ) :
    (swapPairs as).getD k d = as.getD (if k % 2 = 0 then k + 1 else k - 1) d := by
  induction as using swapPairs.induct generalizing k with
  | case1 a b rest ih =>
    have hrest : 2 ∣ rest.length := by simpa [Nat.add_assoc] using h
    rcases k with _ | _ | k
    · rfl
    · rfl
    · have := ih hrest k
      rw [show (k + 1 + 1) % 2 = k % 2 from Nat.add_mod_right k 2]
      split
      · next hk => simpa [swapPairs, hk] using this
      · next hk =>
        obtain ⟨j, rfl⟩ : ∃ j, k = j + 1 := ⟨k - 1, by omega⟩
        simpa [swapPairs, hk] using this
  | case2 rest hno =>
    rcases rest with _ | ⟨a, _ | ⟨b, rest⟩⟩
    · simp [swapPairs]
    · simp at h
    · exact absurd rfl (hno a b rest)

namespace Host

/-- Byte `i` of a word, moved to the place of byte `k`. -/
def byteAt (u : Word) (i k : ℕ) : Word := ((u >>> (8 * i)) &&& 0xff) <<< (8 * k)

theorem getLsbD_byteAt (u : Word) (i k : ℕ) {j : ℕ} (hj : j < 64) :
    (byteAt u i k).getLsbD j = (decide (j / 8 = k) && u.getLsbD (8 * i + j % 8)) := by
  have hmask (n : ℕ) : (0xff : Word).getLsbD n = decide (n < 8) := by
    rw [byte_mask, lowMask, getLsbD_widen (by decide), BitVec.getLsbD_allOnes]
  rw [byteAt, BitVec.getLsbD_shiftLeft, BitVec.getLsbD_and, hmask, BitVec.getLsbD_ushiftRight]
  by_cases hk : j / 8 = k
  · have hplace : j - 8 * k = j % 8 := by omega
    simp [hj, hk, hplace, show ¬j < 8 * k by omega, Nat.mod_lt j (show 0 < 8 by decide)]
  · by_cases hlow : j < 8 * k
    · simp [hk, hlow]
    · simp [hk, show ¬j - 8 * k < 8 by omega]

/-- A word put together piece by piece has the bits of all pieces. -/
theorem getLsbD_foldl_or {α : Type} (g : α → Word) (as : List α) (u : Word) (j : ℕ) :
    (as.foldl (fun acc a => acc ||| g a) u).getLsbD j =
      (u.getLsbD j || as.any fun a => (g a).getLsbD j) := by
  induction as generalizing u with
  | nil => simp
  | cons a as ih => rw [List.foldl_cons, ih, BitVec.getLsbD_or, List.any_cons, Bool.or_assoc]

theorem foldlM_eq_some {α β : Type} {f : β → α → Option β} {g : β → α → β} {as : List α}
    (h : ∀ b, ∀ a ∈ as, f b a = some (g b a)) (b : β) : as.foldlM f b = some (as.foldl g b) := by
  induction as generalizing b with
  | nil => rfl
  | cons a as ih =>
    rw [List.foldlM_cons, h b a List.mem_cons_self]
    exact ih (fun b a ha => h b a (List.mem_cons_of_mem _ ha)) (g b a)

/-- At most one of the pieces has the bit that is asked for. -/
theorem any_range_unique {n k : ℕ} {P : ℕ → Prop} [DecidablePred P] (hP : ∀ i < n, P i ↔ i = k)
    (b : ℕ → Bool) : ((List.range n).any fun i => decide (P i) && b i) = (decide (k < n) && b k) := by
  rw [Bool.eq_iff_iff, List.any_eq_true, Bool.and_eq_true, decide_eq_true_iff]
  constructor
  · rintro ⟨i, hi, h⟩
    rw [Bool.and_eq_true, decide_eq_true_iff, hP i (List.mem_range.mp hi)] at h
    obtain ⟨rfl, hb⟩ := h
    exact ⟨List.mem_range.mp hi, hb⟩
  · rintro ⟨hk, hb⟩
    refine ⟨k, List.mem_range.mpr hk, ?_⟩
    rw [Bool.and_eq_true, decide_eq_true_iff]
    exact ⟨(hP k hk).mpr rfl, hb⟩

section Reversals

variable {w : ℕ}

theorem putReversed?_eq {bytes i : ℕ} (hbytes : bytes ≤ 8) (hi : i < bytes) (u acc : Word) :
    putReversed? u bytes acc i = some (acc ||| byteAt u i (bytes - 1 - i)) := by
  rw [putReversed?, count?_of_lt (by omega), minus?_of_le (show 1 ≤ bytes by omega)]
  simp only [Option.bind_eq_bind, Option.bind_some, shiftRight?_of_lt (show 8 * i < 64 by omega),
    minus?_of_le (show i ≤ bytes - 1 by omega),
    count?_of_lt (show 8 * (bytes - 1 - i) < 4294967296 by omega),
    shiftLeft?_of_lt (show 8 * (bytes - 1 - i) < 64 by omega)]
  rfl

theorem putSwapped?_eq {half : ℕ} (hhalf : half < 4) (u acc : Word) :
    putSwapped? u acc half =
      some (acc ||| (byteAt u (2 * half) (2 * half + 1) ||| byteAt u (2 * half + 1) (2 * half))) := by
  have hlow : 16 * half = 8 * (2 * half) := by omega
  have hhigh : 8 * (2 * half) + 8 = 8 * (2 * half + 1) := by omega
  rw [putSwapped?, count?_of_lt (by omega)]
  simp only [Option.bind_eq_bind, Option.bind_some, hlow, hhigh,
    count?_of_lt (show 8 * (2 * half + 1) < 4294967296 by omega),
    shiftRight?_of_lt (show 8 * (2 * half) < 64 by omega),
    shiftRight?_of_lt (show 8 * (2 * half + 1) < 64 by omega),
    shiftLeft?_of_lt (show 8 * (2 * half) < 64 by omega),
    shiftLeft?_of_lt (show 8 * (2 * half + 1) < 64 by omega)]
  exact congrArg some (BitVec.or_assoc _ _ _)

/-- No step of a reversal traps, whatever the word. -/
theorem reverseBytes?_eq (hw : w ≤ 64) (u : Word) :
    reverseBytes? u w = some ((List.range (w / 8)).foldl
      (fun acc i => acc ||| byteAt u i (w / 8 - 1 - i)) 0) := by
  refine foldlM_eq_some ?_ 0
  intro acc i hi
  exact putReversed?_eq (by omega) (List.mem_range.mp hi) u acc

theorem reverseHalfwords?_eq (hw : w ≤ 64) (u : Word) :
    reverseHalfwords? u w = some ((List.range (w / 16)).foldl (fun acc half =>
      acc ||| (byteAt u (2 * half) (2 * half + 1) ||| byteAt u (2 * half + 1) (2 * half))) 0) := by
  refine foldlM_eq_some ?_ 0
  intro acc half hhalf
  have hlt : half < w / 16 := List.mem_range.mp hhalf
  exact putSwapped?_eq (by omega) u acc

theorem reverseBytes?_widen (hw : w ≤ 64) (h8 : 8 ∣ w) (v : BitVec w) :
    reverseBytes? (widen v) w = some (widen (Reversal.word.eval v)) := by
  rw [reverseBytes?_eq hw]
  congr 1
  apply BitVec.eq_of_getLsbD_eq
  intro j hj
  simp only [getLsbD_foldl_or, getLsbD_byteAt _ _ _ hj, getLsbD_widen hw, Reversal.eval,
    getLsbD_ofBytes, getD_reverse_bytes]
  -- Each place below the width belongs to one piece, the places above it to none.
  by_cases hjw : j < w
  · rw [any_range_unique (k := w / 8 - 1 - j / 8) (by omega)]
    simp [hjw, show j / 8 < w / 8 by omega, show w / 8 - 1 - j / 8 < w / 8 by omega, Nat.mod_lt]
  · have hnone : ∀ i < w / 8, ¬j / 8 = w / 8 - 1 - i := by omega
    simpa [hjw] using fun i hi h => absurd h (hnone i hi)

theorem reverseHalfwords?_widen (hw : w ≤ 64) (h16 : 16 ∣ w) (v : BitVec w) :
    reverseHalfwords? (widen v) w = some (widen (Reversal.halfwords.eval v)) := by
  rw [reverseHalfwords?_eq hw]
  congr 1
  apply BitVec.eq_of_getLsbD_eq
  intro j hj
  have h2 : 2 ∣ (bytes v).length := by
    rw [length_bytes]
    omega
  simp only [getLsbD_foldl_or, BitVec.getLsbD_or, getLsbD_byteAt _ _ _ hj, getLsbD_widen hw,
    Reversal.eval, getLsbD_ofBytes, getD_swapPairs _ _ h2, getD_bytes]
  by_cases hjw : j < w
  · by_cases heven : j / 8 % 2 = 0
    · have hodd : ∀ half, ¬j / 8 = 2 * half + 1 := by omega
      simp only [hodd, decide_false, Bool.false_and, Bool.false_or]
      rw [any_range_unique (k := j / 16) (by omega)]
      simp [hjw, heven, show j / 8 + 1 < w / 8 by omega, show j / 16 < w / 16 by omega,
        show 2 * (j / 16) + 1 = j / 8 + 1 by omega, Nat.mod_lt]
    · have heven' : ∀ half, ¬j / 8 = 2 * half := by omega
      simp only [heven', decide_false, Bool.false_and, Bool.or_false]
      rw [any_range_unique (k := j / 16) (by omega)]
      simp [hjw, heven, show j / 8 - 1 < w / 8 by omega, show j / 16 < w / 16 by omega,
        show 2 * (j / 16) = j / 8 - 1 by omega, Nat.mod_lt]
  · have hnone : ∀ half < w / 16, ¬j / 8 = 2 * half + 1 ∧ ¬j / 8 = 2 * half := by omega
    simpa [hjw] using fun half hhalf =>
      ⟨fun h => absurd h (hnone half hhalf).1, fun h => absurd h (hnone half hhalf).2⟩

/-- The two bytes of a halfword are reversed by exchanging them. -/
theorem reverseHalfwords?_halfword (u : Word) :
    reverseHalfwords? (u &&& 0xffff) 16 =
      some (widen (ofBytes 16 (bytes (narrow 16 u)).reverse)) := by
  rw [halfword_mask, and_lowMask, reverseHalfwords?_widen (by decide) (by decide)]
  rfl

end Reversals

theorem signExtend?_eq {w bits : ℕ} (hw : w ≤ 64) (hpos : 0 < bits) (hbits : bits < 64) (u : Word) :
    signExtend? u bits (lowMask w) = some (widen ((narrow bits u).signExtend w)) := by
  have hmsb : (narrow bits u).getLsbD (bits - 1) = (narrow bits u).msb :=
    (BitVec.msb_eq_getLsbD_last _).symm
  rw [signExtend?, if_pos hbits, lowBits?_of_lt hbits, minus?_of_le hpos]
  simp only [Option.bind_eq_bind, Option.bind_some, and_lowMask,
    bit?_of_lt (show bits - 1 < 64 by omega), getLsbD_widen (Nat.le_of_lt hbits), hmsb]
  cases h : (narrow bits u).msb
  · refine congrArg (some ∘ widen) (BitVec.eq_of_getLsbD_eq fun i hi => ?_)
    rw [getLsbD_narrow, getLsbD_widen (Nat.le_of_lt hbits), BitVec.getLsbD_signExtend, h]
    by_cases hb : i < bits
    · simp [hb]
    · simp [hb, BitVec.getLsbD_of_ge (narrow bits u) i (by omega)]
  · refine congrArg (some ∘ widen) (BitVec.eq_of_getLsbD_eq fun i hi => ?_)
    rw [getLsbD_narrow, BitVec.getLsbD_or, BitVec.getLsbD_not, lowMask,
      getLsbD_widen (Nat.le_of_lt hbits), getLsbD_widen (Nat.le_of_lt hbits),
      BitVec.getLsbD_signExtend, h, BitVec.getLsbD_allOnes]
    by_cases hb : i < bits
    · simp [hb]
    · simp [hb, hi, show i < 64 by omega]

end Host
end Thumb
