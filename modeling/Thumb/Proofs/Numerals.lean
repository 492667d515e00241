import Mathlib.Data.List.Forall2
import Mathlib.Data.Nat.Digits.Defs
import Thumb.Text.Numeral

/-! What numerals denote, told without reading them: each digit is a place in the row of digits, and
the number is the sum of the digits times the powers of the radix. -/
namespace Thumb.Text

/-- The character is the digit `d`, of sixteen, in small letters or in capitals. -/
def IsDigit (c : Char) (d : ℕ) : Prop :=
  "0123456789abcdef".toList[d]? = some c ∨ "0123456789ABCDEF".toList[d]? = some c

instance (c : Char) (d : ℕ) : Decidable (IsDigit c d) := inferInstanceAs (Decidable (_ ∨ _))

/-- The characters are digits in a radix, the highest first, of the number. -/
def Digits (radix : ℕ) (cs : List Char) (n : ℕ) : Prop :=
  ∃ ds, List.Forall₂ (fun c d => IsDigit c d ∧ d < radix) cs ds ∧ n = Nat.ofDigits radix ds.reverse

/-- The text is a numeral for the number: decimal digits, or `0x` in either case and hexadecimal
digits, at least one and with as many leading zeros as there may be. -/
def IsNumeral (cs : List Char) (n : ℕ) : Prop :=
  cs ≠ [] ∧ Digits 10 cs n ∨
    ∃ x hex, (x = 'x' ∨ x = 'X') ∧ cs = '0' :: x :: hex ∧ hex ≠ [] ∧ Digits 16 hex n

theorem toNat_lt_of_isDigit {c : Char} {d : ℕ} (h : IsDigit c d) : c.toNat < 128 ∧ d < 16 := by
  have hsmall : "0123456789abcdef".toList.all (·.toNat < 128) = true := by decide +kernel
  have hcapital : "0123456789ABCDEF".toList.all (·.toNat < 128) = true := by decide +kernel
  rw [List.all_eq_true] at hsmall hcapital
  rcases h with h | h
  · exact ⟨of_decide_eq_true (hsmall c (List.mem_of_getElem? h)),
      (List.getElem?_eq_some_iff.mp h).1⟩
  · exact ⟨of_decide_eq_true (hcapital c (List.mem_of_getElem? h)),
      (List.getElem?_eq_some_iff.mp h).1⟩

theorem toNat_lt_of_digit? {radix d : ℕ} {c : Char} (h : digit? radix c = some d) :
    c.toNat < 128 := by
  have hle (c' : Char) (hc' : c'.toNat < 128) (hc : c ≤ c') : c.toNat < 128 :=
    Nat.lt_of_le_of_lt hc hc'
  obtain ⟨h, -⟩ := Option.filter_eq_some_iff.mp h
  split at h
  · next hc => exact hle '9' (by decide) hc.2
  · split at h
    · next hc => exact hle 'f' (by decide) hc.2
    · split at h
      · next hc => exact hle 'F' (by decide) hc.2
      · cases h

theorem digit?_sixteen_eq_some_iff {c : Char} {d : ℕ} : digit? 16 c = some d ↔ IsDigit c d := by
  have table : ∀ n < 128, ∀ d < 16,
      digit? 16 (Char.ofNat n) = some d ↔ IsDigit (Char.ofNat n) d := by decide +kernel
  constructor
  · intro h
    have hc := table c.toNat (toNat_lt_of_digit? h) d (digit?_lt h)
    rw [Char.ofNat_toNat] at hc
    exact hc.mp h
  · intro h
    obtain ⟨hlt, hd⟩ := toNat_lt_of_isDigit h
    have hc := table c.toNat hlt d hd
    rw [Char.ofNat_toNat] at hc
    exact hc.mpr h

theorem digit?_eq_some_iff {radix : ℕ} (hradix : radix ≤ 16) {c : Char} {d : ℕ} :
    digit? radix c = some d ↔ IsDigit c d ∧ d < radix := by
  rw [← digit?_sixteen_eq_some_iff]
  simp only [digit?, Option.filter_eq_some_iff, decide_eq_true_eq, and_assoc]
  constructor
  · rintro ⟨h, hd⟩
    exact ⟨h, by omega, hd⟩
  · rintro ⟨h, -, hd⟩
    exact ⟨h, hd⟩

theorem readDigits_eq_some_iff {radix : ℕ} (hradix : radix ≤ 16) {cs : List Char} {acc n : ℕ} :
    readDigits radix acc cs = some n ↔
      ∃ ds, List.Forall₂ (fun c d => IsDigit c d ∧ d < radix) cs ds ∧
        ds.foldl (fun acc d => acc * radix + d) acc = n := by
  induction cs generalizing acc with
  | nil => simp only [readDigits_nil, List.forall₂_nil_left_iff, exists_eq_left, List.foldl_nil,
      Option.some.injEq]
  | cons c cs ih =>
    rw [readDigits_cons, Option.bind_eq_some_iff]
    constructor
    · rintro ⟨d, hd, h⟩
      obtain ⟨ds, hds, hn⟩ := ih.mp h
      exact ⟨d :: ds, .cons ((digit?_eq_some_iff hradix).mp hd) hds, hn⟩
    · rintro ⟨_, hds, hn⟩
      cases hds with
      | cons hd hds => exact ⟨_, (digit?_eq_some_iff hradix).mpr hd, ih.mpr ⟨_, hds, hn⟩⟩

theorem readDigits_zero_eq_some_iff {radix : ℕ} (hradix : radix ≤ 16) {cs : List Char} {n : ℕ} :
    readDigits radix 0 cs = some n ↔ Digits radix cs n := by
  have hvalue (ds : List ℕ) :
      ds.foldl (fun acc d => acc * radix + d) 0 = Nat.ofDigits radix ds.reverse := by
    rw [Nat.ofDigits_eq_foldr, List.foldr_reverse]
    simp only [Nat.cast_id, Nat.mul_comm radix, Nat.add_comm]
  simp only [readDigits_eq_some_iff hradix, hvalue, Digits, eq_comm]

/-- The mark of the other radix is no decimal digit. -/
theorem not_digits_of_mark {x : Char} (hx : x = 'x' ∨ x = 'X') (cs : List Char) (n : ℕ) :
    ¬Digits 10 ('0' :: x :: cs) n := by
  rintro ⟨ds, hds, -⟩
  cases hds with
  | cons _ hds =>
    cases hds with
    | cons hd _ =>
      have hnone : ∀ d < 10, ¬IsDigit 'x' d ∧ ¬IsDigit 'X' d := by decide +kernel
      obtain ⟨hdigit, hlt⟩ := hd
      rcases hx with rfl | rfl
      · exact (hnone _ hlt).1 hdigit
      · exact (hnone _ hlt).2 hdigit

theorem radixDigits_cases (cs : List Char) :
    (∃ x hex, (x = 'x' ∨ x = 'X') ∧ cs = '0' :: x :: hex ∧ radixDigits cs = (16, hex)) ∨
      (∀ x hex, x = 'x' ∨ x = 'X' → cs ≠ '0' :: x :: hex) ∧ radixDigits cs = (10, cs) := by
  unfold radixDigits
  split
  · next hex => exact .inl ⟨'x', hex, .inl rfl, rfl, rfl⟩
  · next hex => exact .inl ⟨'X', hex, .inr rfl, rfl, rfl⟩
  · next hx hX =>
    refine .inr ⟨?_, rfl⟩
    rintro x hex (rfl | rfl) rfl
    · exact hx hex rfl
    · exact hX hex rfl

theorem numeral?_of_radixDigits {radix : ℕ} (hradix : radix ≤ 16) {cs ds : List Char}
    (h : radixDigits cs = (radix, ds)) {n : ℕ} :
    numeral? cs = some n ↔ ds ≠ [] ∧ Digits radix ds n := by
  rw [numeral?, h]
  cases ds with
  | nil => simp
  | cons d ds =>
    have hne : d :: ds ≠ [] := List.cons_ne_nil d ds
    simp only [hne, ne_eq, not_false_eq_true, true_and]
    exact readDigits_zero_eq_some_iff hradix

/-- The reader accepts exactly the numerals, each as the number that it denotes. -/
theorem numeral?_eq_some_iff {cs : List Char} {n : ℕ} : numeral? cs = some n ↔ IsNumeral cs n := by
  obtain ⟨x, hex, hx, rfl, hread⟩ | ⟨hmark, hread⟩ := radixDigits_cases cs
  · rw [numeral?_of_radixDigits (by decide) hread]
    constructor
    · rintro ⟨hne, h⟩
      exact .inr ⟨x, hex, hx, rfl, hne, h⟩
    · rintro (⟨-, h⟩ | ⟨x', hex', -, heq, hne, h⟩)
      · exact absurd h (not_digits_of_mark hx hex n)
      · cases heq
        exact ⟨hne, h⟩
  · rw [numeral?_of_radixDigits (by decide) hread]
    constructor
    · exact .inl
    · rintro (h | ⟨x, hex, hx, heq, -⟩)
      · exact h
      · exact absurd heq (hmark x hex hx)

end Thumb.Text
