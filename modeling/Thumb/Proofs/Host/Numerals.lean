import Thumb.Host.Numeral
import Thumb.Proofs.RegisterNames

/-! The tokens that a computer reads byte by byte and in words of 64 bits are those of the texts: a
mark that is cut off at a byte is a mark of the text, the shape check lets through what is a numeral,
and the digits of a numeral are added up unless the number is no word. -/
namespace Thumb
namespace Host

theorem cut?_eq_some_iff {n : ℕ} {cs start rest : List Char} :
    cut? n cs = some (start, rest) ↔ cs = start ++ rest ∧ byteLength start = n := by
  induction cs generalizing n start with
  | nil =>
    have hnil : start = [] ∧ rest = [] → byteLength start = 0 := by
      rintro ⟨rfl, -⟩
      rfl
    have hcut : cut? n [] = some (start, rest) ↔ (start = [] ∧ rest = []) ∧ 0 = n := by
      cases n <;> simp [cut?, eq_comm]
    rw [hcut, List.nil_eq_append_iff]
    apply and_congr_right
    intro h
    rw [hnil h]
  | cons c cs ih =>
    have hpos := c.utf8Size_pos
    cases n with
    | zero =>
      simp only [cut?, Option.some.injEq, Prod.mk.injEq]
      constructor
      · rintro ⟨rfl, rfl⟩
        exact ⟨rfl, rfl⟩
      · rintro ⟨hcs, hsum⟩
        cases start with
        | nil => exact ⟨rfl, hcs⟩
        | cons d start =>
          obtain ⟨rfl, -⟩ := List.cons.inj hcs
          rw [byteLength] at hsum
          omega
    | succ n =>
      have hfound : cut? (n + 1) (c :: cs) = some (start, rest) ↔ c.utf8Size ≤ n + 1 ∧
          ∃ tail, start = c :: tail ∧ cut? (n + 1 - c.utf8Size) cs = some (tail, rest) := by
        rw [cut?]
        split
        · next hle =>
          simp only [Option.map_eq_some_iff, Prod.exists, Prod.mk.injEq, hle, true_and]
          constructor
          · rintro ⟨tail, rest', h, rfl, rfl⟩
            exact ⟨tail, rfl, h⟩
          · rintro ⟨tail, rfl, h⟩
            exact ⟨tail, rest, h, rfl, rfl⟩
        · next hle => simp [hle]
      rw [hfound]
      constructor
      · rintro ⟨hle, tail, rfl, h⟩
        obtain ⟨rfl, hsum⟩ := ih.mp h
        refine ⟨rfl, ?_⟩
        rw [byteLength]
        omega
      · rintro ⟨hcs, hsum⟩
        cases start with
        | nil => cases hsum
        | cons d tail =>
          obtain ⟨rfl, rfl⟩ := List.cons.inj hcs
          rw [byteLength] at hsum
          exact ⟨by omega, tail, rfl, ih.mpr ⟨rfl, by omega⟩⟩

/-- Only characters of ASCII have another case. -/
theorem toNat_lt_or_toUpper_eq (c : Char) : c.toNat < 128 ∨ c.toUpper = c := by
  by_cases hlow : 'a' ≤ c ∧ c ≤ 'z'
  · exact .inl (Nat.lt_of_le_of_lt (Char.le_def.mp hlow.2) (by decide))
  · right
    unfold Char.toUpper
    exact dif_neg hlow

theorem utf8Size_toUpper (c : Char) : c.toUpper.utf8Size = c.utf8Size := by
  have htable : ∀ n < 128, (Char.ofNat n).toUpper.utf8Size = (Char.ofNat n).utf8Size := by
    decide +kernel
  obtain hlt | hsame := toNat_lt_or_toUpper_eq c
  · have h := htable c.toNat hlt
    rwa [Char.ofNat_toNat] at h
  · rw [hsame]

theorem byteLength_map_toUpper (cs : List Char) :
    byteLength (cs.map Char.toUpper) = byteLength cs := by
  induction cs with
  | nil => rfl
  | cons c cs ih => rw [List.map_cons, byteLength, byteLength, utf8Size_toUpper, ih]

/-- A mark is cut off where the text starts with it, in either case. -/
theorem afterMark?_eq_some_iff {mark cs rest : List Char} :
    afterMark? mark cs = some rest ↔
      ∃ start, start.map Char.toUpper = mark.map Char.toUpper ∧ cs = start ++ rest := by
  rw [afterMark?, Option.bind_eq_some_iff]
  constructor
  · rintro ⟨⟨start, rest'⟩, hcut, h⟩
    obtain ⟨hcase, ⟨⟩⟩ := Option.ite_none_right_eq_some.mp h
    exact ⟨start, hcase, (cut?_eq_some_iff.mp hcut).1⟩
  · rintro ⟨start, hcase, hcs⟩
    refine ⟨(start, rest), cut?_eq_some_iff.mpr ⟨hcs, ?_⟩, if_pos hcase⟩
    rw [← byteLength_map_toUpper, hcase, byteLength_map_toUpper]

theorem toUpper_eq_iff (c : Char) :
    (c.toUpper = 'R' ↔ c = 'R' ∨ c = 'r') ∧ (c.toUpper = '0' ↔ c = '0') ∧
      (c.toUpper = 'X' ↔ c = 'x' ∨ c = 'X') := by
  have htable : ∀ n < 128, ((Char.ofNat n).toUpper = 'R' ↔
      Char.ofNat n = 'R' ∨ Char.ofNat n = 'r') ∧
        ((Char.ofNat n).toUpper = '0' ↔ Char.ofNat n = '0') ∧
          ((Char.ofNat n).toUpper = 'X' ↔ Char.ofNat n = 'x' ∨ Char.ofNat n = 'X') := by
    decide +kernel
  have hascii (h : c.toNat < 128) := htable c.toNat h
  rw [Char.ofNat_toNat] at hascii
  obtain hlt | hsame := toNat_lt_or_toUpper_eq c
  · exact hascii hlt
  · by_cases hlt : c.toNat < 128
    · exact hascii hlt
    · have hne {d : Char} (hd : d.toNat < 128) : c ≠ d := by
        rintro rfl
        exact hlt hd
      simp [hsame, hne]

theorem afterMark?_letter (cs : List Char) : afterMark? ['R'] cs = Token.afterR? cs := by
  ext rest
  rw [afterMark?_eq_some_iff, Token.afterR?_eq_some_iff]
  constructor
  · rintro ⟨start, hcase, rfl⟩
    obtain ⟨c, rfl, hc⟩ := List.map_eq_singleton_iff.mp hcase
    exact ⟨c, (toUpper_eq_iff c).1.mp hc, rfl⟩
  · rintro ⟨c, hc, rfl⟩
    exact ⟨[c], congrArg (· :: []) ((toUpper_eq_iff c).1.mpr hc), rfl⟩

theorem afterMark?_radix {cs hex : List Char} : afterMark? ['0', 'x'] cs = some hex ↔
    ∃ x, (x = 'x' ∨ x = 'X') ∧ cs = '0' :: x :: hex := by
  rw [afterMark?_eq_some_iff]
  constructor
  · rintro ⟨start, hcase, rfl⟩
    obtain ⟨zero, start, rfl, hzero, hcase⟩ := List.map_eq_cons_iff.mp hcase
    obtain ⟨x, rfl, hx⟩ := List.map_eq_singleton_iff.mp hcase
    obtain rfl := (toUpper_eq_iff zero).2.1.mp hzero
    exact ⟨x, (toUpper_eq_iff x).2.2.mp hx, rfl⟩
  · rintro ⟨x, rfl | rfl, rfl⟩
    · exact ⟨['0', 'x'], rfl, rfl⟩
    · exact ⟨['0', 'X'], rfl, rfl⟩

theorem isSome_digit? (c : Char) : (Text.digit? 10 c).isSome = c.isDigit ∧
    (Text.digit? 16 c).isSome = isHexDigit c := by
  have htable : ∀ n < 128, (Text.digit? 10 (Char.ofNat n)).isSome = (Char.ofNat n).isDigit ∧
      (Text.digit? 16 (Char.ofNat n)).isSome = isHexDigit (Char.ofNat n) := by decide +kernel
  by_cases hlt : c.toNat < 128
  · have h := htable c.toNat hlt
    rwa [Char.ofNat_toNat] at h
  · have hnone (radix : ℕ) : Text.digit? radix c = none := by
      cases h : Text.digit? radix c with
      | none => rfl
      | some d => exact absurd (Text.toNat_lt_of_digit? h) hlt
    have hle {d : Char} (hd : d.toNat < 128) : ¬c ≤ d := fun h =>
      hlt (Nat.lt_of_le_of_lt (Char.le_def.mp h) hd)
    have hdigit : c.isDigit = false := by
      rw [Char.isDigit, Bool.and_eq_false_iff]
      exact .inr (decide_eq_false (hle (d := '9') (by decide)))
    rw [hnone, hnone, isHexDigit, hdigit, decide_eq_false (hle (d := 'f') (by decide)),
      decide_eq_false (hle (d := 'F') (by decide))]
    simp

theorem isSome_readDigits (radix : ℕ) (cs : List Char) (acc : ℕ) :
    (Text.readDigits radix acc cs).isSome = cs.all fun c => (Text.digit? radix c).isSome := by
  induction cs generalizing acc with
  | nil => rfl
  | cons c cs ih =>
    rw [Text.readDigits_cons, List.all_cons]
    cases Text.digit? radix c with
    | none => rfl
    | some d => rw [Option.bind_some, ih, Option.isSome_some, Bool.true_and]

/-- The radix that is announced is the one whose mark is cut off. -/
theorem afterMark?_cases (cs : List Char) :
    (∃ hex, afterMark? ['0', 'x'] cs = some hex ∧ Text.radixDigits cs = (16, hex)) ∨
      afterMark? ['0', 'x'] cs = none ∧ Text.radixDigits cs = (10, cs) := by
  obtain ⟨x, hex, hx, hcs, hradix⟩ | ⟨hmark, hradix⟩ := Text.radixDigits_cases cs
  · exact .inl ⟨hex, afterMark?_radix.mpr ⟨x, hx, hcs⟩, hradix⟩
  · refine .inr ⟨Option.eq_none_iff_forall_ne_some.mpr fun hex h => ?_, hradix⟩
    obtain ⟨x, hx, hcs⟩ := afterMark?_radix.mp h
    exact hmark x hex hx hcs

theorem numeral?_of_radixDigits_eq {radix : ℕ} {cs ds : List Char}
    (h : Text.radixDigits cs = (radix, ds)) :
    Text.numeral? cs = if ds.isEmpty then none else Text.readDigits radix 0 ds := by
  rw [Text.numeral?, h]
  cases ds <;> rfl

/-- The shape check lets through exactly the numerals. -/
theorem isNumber_eq (cs : List Char) : isNumber cs = (Text.numeral? cs).isSome := by
  have hshape (radix : ℕ) (ds : List Char) :
      (!ds.isEmpty && ds.all fun c => (Text.digit? radix c).isSome) =
        (if ds.isEmpty then none else Text.readDigits radix 0 ds).isSome := by
    rw [← isSome_readDigits radix ds 0]
    cases ds <;> rfl
  rw [isNumber]
  obtain ⟨hex, hmark, hradix⟩ | ⟨hmark, hradix⟩ := afterMark?_cases cs
  · rw [hmark, numeral?_of_radixDigits_eq hradix, ← hshape]
    simp only [isSome_digit?]
  · rw [hmark, numeral?_of_radixDigits_eq hradix, ← hshape]
    simp only [isSome_digit?]

theorem le_of_readDigits {radix : ℕ} (hradix : 0 < radix) {cs : List Char} {acc n : ℕ}
    (h : Text.readDigits radix acc cs = some n) : acc ≤ n := by
  induction cs generalizing acc with
  | nil => exact Nat.le_of_eq (Option.some.inj h)
  | cons c cs ih =>
    rw [Text.readDigits_cons] at h
    obtain ⟨d, -, h⟩ := Option.bind_eq_some_iff.mp h
    exact (Nat.le_add_right_of_le (Nat.le_mul_of_pos_right acc hradix)).trans (ih h)

theorem long?_of_lt {n : ℕ} (h : n < UInt64.size) : long? n = some n := if_pos h

theorem long?_of_le {n : ℕ} (h : UInt64.size ≤ n) : long? n = none := if_neg (Nat.not_lt.mpr h)

/-- A digit is put after the others unless the number overflows, at whichever of the two steps. -/
theorem push?_eq {radix d : ℕ} {c : Char} (hd : Text.digit? radix c = some d) (acc : ℕ) :
    push? radix acc c = long? (acc * radix + d) := by
  rw [push?, hd]
  by_cases h : acc * radix < UInt64.size
  · rw [long?_of_lt h]
    rfl
  · rw [long?_of_le (Nat.not_lt.mp h),
      long?_of_le (Nat.le_add_right_of_le (Nat.not_lt.mp h))]
    rfl

theorem push?_eq_none {radix : ℕ} {c : Char} (hc : Text.digit? radix c = none) (acc : ℕ) :
    push? radix acc c = none := by
  rw [push?, hc]
  cases long? (acc * radix) <;> rfl

/-- Adding up overflows exactly where the number is no word. -/
theorem foldlM_push? {radix : ℕ} (hradix : 0 < radix) (cs : List Char) {acc : ℕ}
    (hacc : acc < UInt64.size) :
    cs.foldlM (push? radix) acc =
      (Text.readDigits radix acc cs).filter (· < UInt64.size) := by
  induction cs generalizing acc with
  | nil =>
    rw [List.foldlM_nil, Text.readDigits_nil, Option.filter_some, decide_eq_true hacc]
    rfl
  | cons c cs ih =>
    rw [List.foldlM_cons, Text.readDigits_cons]
    cases hc : Text.digit? radix c with
    | none =>
      rw [push?_eq_none hc]
      rfl
    | some d =>
      rw [push?_eq hc, Option.bind_some]
      by_cases h : acc * radix + d < UInt64.size
      · rw [long?_of_lt h]
        exact ih h
      · rw [long?_of_le (Nat.not_lt.mp h)]
        symm
        rw [Option.bind_eq_bind, Option.bind_none, Option.filter_eq_none_iff]
        intro n hn
        have hle := le_of_readDigits hradix hn
        simp only [decide_eq_true_eq]
        omega

/-- There is no sign before digits. -/
theorem parse?_of_readDigits {radix n : ℕ} {cs : List Char} (hne : cs ≠ [])
    (h : Text.readDigits radix 0 cs = some n) : parse? radix cs = cs.foldlM (push? radix) 0 := by
  have hplus : Text.digit? radix '+' = none := rfl
  unfold parse?
  split
  · exact absurd rfl hne
  · rw [Text.readDigits_cons, hplus] at h
    cases h
  · rw [Text.readDigits_cons, hplus] at h
    cases h
  · rfl

theorem number?_eq (cs : List Char) : number? cs = Text.word? cs := by
  have hread {radix : ℕ} (hradix : 0 < radix) {ds : List Char}
      (h : Text.radixDigits cs = (radix, ds)) (hsome : (Text.numeral? cs).isSome = true) :
      parse? radix ds = Text.word? cs := by
    rw [Text.word?, numeral?_of_radixDigits_eq h]
    rw [numeral?_of_radixDigits_eq h] at hsome
    split at hsome
    · cases hsome
    · next hne =>
      obtain ⟨n, hn⟩ := Option.isSome_iff_exists.mp hsome
      have hnil : ds ≠ [] := fun hnil => hne (List.isEmpty_iff.mpr hnil)
      rw [if_neg hne, parse?_of_readDigits hnil hn, foldlM_push? hradix _ (by decide)]
  rw [number?, isNumber_eq]
  by_cases hsome : (Text.numeral? cs).isSome = true
  · rw [if_pos hsome]
    obtain ⟨hex, hmark, hradix⟩ | ⟨hmark, hradix⟩ := afterMark?_cases cs
    · rw [hmark]
      exact hread (by decide) hradix hsome
    · rw [hmark]
      exact hread (by decide) hradix hsome
  · rw [if_neg hsome, Text.word?, Option.not_isSome_iff_eq_none.mp hsome]
    rfl

theorem registerNumber_eq (t : String) : registerNumber t = Token.registerNumber t := by
  cases halias : Token.alias? (Text.trimmed t) with
  | some n => simp only [registerNumber, Token.registerNumber, halias]
  | none =>
    cases hafter : Token.afterR? (Text.trimmed t).toList with
    | none => simp only [registerNumber, Token.registerNumber, afterMark?_letter, halias, hafter]
    | some digits =>
      cases hword : Text.word? digits <;>
        simp only [registerNumber, Token.registerNumber, afterMark?_letter, number?_eq, halias, hafter,
          hword]

theorem immediateValue_eq (t : String) : immediateValue t = Token.immediateValue t := by
  cases hafter : Token.afterHash? (Text.trimmed t).toList with
  | none => simp only [immediateValue, Token.immediateValue, hafter]
  | some digits =>
    cases hword : Text.word? digits <;>
      simp only [immediateValue, Token.immediateValue, number?_eq, hafter, hword]

theorem any_isNumber (o : Option (List Char)) :
    o.any isNumber = (o.bind Text.numeral?).isSome := by
  cases o with
  | none => rfl
  | some cs => exact isNumber_eq cs

theorem isRegister_eq (t : String) : isRegister t = Token.isRegister t := by
  simp only [isRegister, Token.isRegister, Token.isMarkedNumeral, afterMark?_letter, any_isNumber]

theorem isImmediate_eq (t : String) : isImmediate t = Token.isImmediate t := by
  simp only [isImmediate, Token.isImmediate, Token.isMarkedNumeral, any_isNumber]

end Host
end Thumb
