import Thumb.Proofs.Host.Numerals
import Thumb.Proofs.LineGrammar

/-! What numbered tokens denote. A token is read as a number exactly when it is an alias, or a mark and
a numeral for a word, and then as that number: every way to write the number after the mark, with
leading zeros, in either radix and in either case, is read back as it. -/
namespace Thumb

namespace Text

def IsLiteral (cs : List Char) (n : ℕ) : Prop := ∃ digits, cs = '#' :: digits ∧ IsNumeral digits n

/-- The text is the number's digits in a radix, in either case and with leading zeros. -/
def Renders (radix n : ℕ) (cs : List Char) : Prop :=
  ∃ zeros digits, cs = List.replicate zeros '0' ++ digits ∧
    digits.map Char.toUpper = (Nat.toDigits radix n).map Char.toUpper

def IsRendering (n : ℕ) (cs : List Char) : Prop :=
  Renders 10 n cs ∨ ∃ x hex, (x = 'x' ∨ x = 'X') ∧ cs = '0' :: x :: hex ∧ Renders 16 n hex

variable {radix n : ℕ} {cs : List Char}

theorem isDigit_toUpper {c : Char} {d : ℕ} : IsDigit c.toUpper d ↔ IsDigit c d := by
  have htable : ∀ n < 128, ∀ d < 16, IsDigit (Char.ofNat n).toUpper d ↔ IsDigit (Char.ofNat n) d := by
    decide +kernel
  obtain hlt | hsame := Host.toNat_lt_or_toUpper_eq c
  · by_cases hd : d < 16
    · have h := htable c.toNat hlt d hd
      rwa [Char.ofNat_toNat] at h
    · exact iff_of_false (fun h => hd (toNat_lt_of_isDigit h).2) fun h =>
        hd (toNat_lt_of_isDigit h).2
  · rw [hsame]

theorem digits_map_toUpper : Digits radix (cs.map Char.toUpper) n ↔ Digits radix cs n := by
  simp only [Digits, List.forall₂_map_left_iff, isDigit_toUpper]

theorem Digits.concat {m d : ℕ} {c : Char} (h : Digits radix cs m) (hc : IsDigit c d)
    (hd : d < radix) : Digits radix (cs ++ [c]) (m * radix + d) := by
  obtain ⟨ds, hds, rfl⟩ := h
  refine ⟨ds ++ [d], List.rel_append hds (.cons ⟨hc, hd⟩ .nil), ?_⟩
  rw [List.reverse_append, List.reverse_singleton, List.singleton_append, Nat.ofDigits_cons]
  ring

theorem Digits.zeros (h : Digits radix cs n) (hradix : 0 < radix) (k : ℕ) :
    Digits radix (List.replicate k '0' ++ cs) n := by
  induction k with
  | zero => exact h
  | succ k ih =>
    obtain ⟨ds, hds, rfl⟩ := ih
    refine ⟨0 :: ds, .cons ⟨.inl rfl, hradix⟩ hds, ?_⟩
    rw [List.reverse_cons, Nat.ofDigits_append, Nat.ofDigits_singleton, Nat.mul_zero, Nat.add_zero]

theorem isDigit_digitChar {d : ℕ} (hd : d < 16) : IsDigit d.digitChar d := by
  have htable : ∀ d < 16, IsDigit d.digitChar d := by decide +kernel
  exact htable d hd

theorem digits_toDigits (hlow : 1 < radix) (hhigh : radix ≤ 16) (n : ℕ) :
    Digits radix (Nat.toDigits radix n) n := by
  induction n using Nat.strong_induction_on with
  | _ n ih =>
    have hmod : n % radix < radix := Nat.mod_lt n (by omega)
    rw [Nat.toDigits_eq_if hlow]
    split
    · next hlt =>
      have hdigit : IsDigit n.digitChar n := isDigit_digitChar (by omega)
      exact ⟨[n], .cons ⟨hdigit, hlt⟩ .nil, by simp⟩
    · next hle =>
      have hprefix := ih (n / radix) (Nat.div_lt_self (by omega) hlow)
      have h := hprefix.concat (isDigit_digitChar (by omega)) hmod
      rwa [Nat.div_add_mod'] at h

theorem Renders.digits (hlow : 1 < radix) (hhigh : radix ≤ 16) (h : Renders radix n cs) :
    cs ≠ [] ∧ Digits radix cs n := by
  obtain ⟨zeros, digits, rfl, hcase⟩ := h
  constructor
  · intro hnil
    rw [(List.append_eq_nil_iff.mp hnil).2, List.map_nil, eq_comm, List.map_eq_nil_iff] at hcase
    exact Nat.toDigits_ne_nil hcase
  · refine Digits.zeros ?_ (by omega) zeros
    rw [← digits_map_toUpper, hcase, digits_map_toUpper]
    exact digits_toDigits hlow hhigh n

theorem IsRendering.isNumeral (h : IsRendering n cs) : IsNumeral cs n := by
  obtain h | ⟨x, hex, hx, rfl, h⟩ := h
  · exact .inl (h.digits (by decide) (by decide))
  · exact .inr ⟨x, hex, hx, rfl, h.digits (by decide) (by decide)⟩

theorem isAlphanum_of_isDigit {c : Char} {d : ℕ} (h : IsDigit c d) : c.isAlphanum = true := by
  have hsmall : "0123456789abcdef".toList.all Char.isAlphanum = true := by decide +kernel
  have hcapital : "0123456789ABCDEF".toList.all Char.isAlphanum = true := by decide +kernel
  rcases h with h | h
  · exact List.all_eq_true.mp hsmall c (List.mem_of_getElem? h)
  · exact List.all_eq_true.mp hcapital c (List.mem_of_getElem? h)

theorem Digits.isAlphanum (h : Digits radix cs n) : ∀ c ∈ cs, c.isAlphanum = true := by
  obtain ⟨ds, hds, -⟩ := h
  intro c hc
  obtain ⟨d, -, hd, -⟩ := exists_of_mem_right hds.flip hc
  exact isAlphanum_of_isDigit hd

theorem IsNumeral.isAlphanum (h : IsNumeral cs n) : ∀ c ∈ cs, c.isAlphanum = true := by
  obtain ⟨-, h⟩ | ⟨x, hex, hx, rfl, -, h⟩ := h
  · exact h.isAlphanum
  · refine List.forall_mem_cons.mpr ⟨by decide, List.forall_mem_cons.mpr ⟨?_, h.isAlphanum⟩⟩
    rcases hx with rfl | rfl <;> decide

theorem isAlphanum_of_upper {t : String} (h : ∀ c ∈ (upper t).toList, c.isAlphanum = true) :
    ∀ c ∈ t.toList, c.isAlphanum = true := by
  have htable : ∀ n < 128, (Char.ofNat n).toUpper.isAlphanum = true →
      (Char.ofNat n).isAlphanum = true := by decide +kernel
  intro c hc
  have hupper : c.toUpper.isAlphanum = true := by
    apply h
    rw [toList_upper]
    exact List.mem_map_of_mem hc
  obtain hlt | hsame := Host.toNat_lt_or_toUpper_eq c
  · have hc := htable c.toNat hlt
    rw [Char.ofNat_toNat] at hc
    exact hc hupper
  · rwa [hsame] at hupper

end Text

namespace Token

open Text (trimmed upper)

variable {t : String} {n : ℕ}

theorem afterHash?_eq_some_iff {cs rest : List Char} :
    afterHash? cs = some rest ↔ cs = '#' :: rest := by
  constructor
  · intro h
    unfold afterHash? at h
    split at h
    · cases h
      rfl
    · cases h
  · rintro rfl
    rfl

theorem afterHash?_bind_eq_some_iff {cs : List Char} :
    (afterHash? cs).bind Text.numeral? = some n ↔ Text.IsLiteral cs n := by
  simp only [Option.bind_eq_some_iff, afterHash?_eq_some_iff, Text.numeral?_eq_some_iff,
    Text.IsLiteral]

theorem immediateValue_eq_ok_iff_literal :
    immediateValue t = .ok n ↔ Text.IsLiteral (trimmed t).toList n ∧ n < UInt64.size := by
  simp only [immediateValue_eq_ok_iff, Text.word?_eq_some_iff, ← and_assoc, exists_and_right]
  apply and_congr_left'
  rw [← afterHash?_bind_eq_some_iff, Option.bind_eq_some_iff]

theorem isImmediate_iff : isImmediate t = true ↔ ∃ n, Text.IsLiteral (trimmed t).toList n := by
  rw [isImmediate, isMarkedNumeral, Option.isSome_iff_exists]
  exact exists_congr fun _ => afterHash?_bind_eq_some_iff

/-- Why a text that is no literal of a word is refused. -/
theorem immediateValue_eq_error (h : ∀ n, immediateValue t ≠ .ok n) :
    immediateValue t = .error (if (trimmed t).toList.head? = some '#' then
      .immediateDigits (trimmed t) else .notImmediate (trimmed t)) := by
  cases hmark : afterHash? (trimmed t).toList with
  | none =>
    have hhead : (trimmed t).toList.head? ≠ some '#' := by
      intro hhead
      obtain ⟨rest, hrest⟩ := List.head?_eq_some_iff.mp hhead
      rw [afterHash?_eq_some_iff.mpr hrest] at hmark
      cases hmark
    rw [if_neg hhead]
    simp only [immediateValue, hmark]
  | some digits =>
    have hhead : (trimmed t).toList.head? = some '#' := by
      rw [afterHash?_eq_some_iff.mp hmark]
      rfl
    cases hword : Text.word? digits with
    | some n => exact absurd (immediateValue_eq_ok_iff.mpr ⟨digits, hmark, hword⟩) (h n)
    | none =>
      rw [if_pos hhead]
      simp only [immediateValue, hmark, hword]

/-- Why a text that numbers no register is refused. -/
theorem registerNumber_eq_error (h : ∀ n, registerNumber t ≠ .ok n) :
    registerNumber t = .error (if (trimmed t).toList.head?.map Char.toUpper = some 'R' then
      .registerDigits (trimmed t) else .notRegister (trimmed t)) := by
  have halias : alias? (trimmed t) = none := by
    cases ha : alias? (trimmed t) with
    | none => rfl
    | some n => exact absurd (registerNumber_eq_ok_iff.mpr (.inl ha)) (h n)
  cases hmark : afterR? (trimmed t).toList with
  | none =>
    have hhead : (trimmed t).toList.head?.map Char.toUpper ≠ some 'R' := by
      intro hhead
      obtain ⟨c, hc, hupper⟩ := Option.map_eq_some_iff.mp hhead
      obtain ⟨rest, hrest⟩ := List.head?_eq_some_iff.mp hc
      rw [afterR?_eq_some_iff.mpr ⟨c, (Host.toUpper_eq_iff c).1.mp hupper, hrest⟩] at hmark
      cases hmark
    rw [if_neg hhead]
    simp only [registerNumber, halias, hmark]
  | some digits =>
    cases hword : Text.word? digits with
    | some n =>
      exact absurd (registerNumber_eq_ok_iff.mpr (.inr ⟨halias, digits, hmark, hword⟩)) (h n)
    | none =>
      rw [if_pos (afterR?_eq_some hmark)]
      simp only [registerNumber, halias, hmark, hword]

theorem isAlphanum_of_isRegister (h : isRegister t = true) :
    ∀ c ∈ (trimmed t).toList, c.isAlphanum = true := by
  have hnames : ∀ name ∈ registerNames, name.toList.all Char.isAlphanum = true := by
    decide +kernel
  obtain h | ⟨n, c, digits, hc, hcs, h⟩ := isRegister_iff.mp h
  · exact Text.isAlphanum_of_upper (List.all_eq_true.mp (hnames _ h))
  · rw [hcs]
    refine List.forall_mem_cons.mpr ⟨?_, h.isAlphanum⟩
    rcases hc with rfl | rfl <;> decide

theorem isAlphanum_of_isImmediate (h : isImmediate t = true) :
    ∀ c ∈ (trimmed t).toList, c.isAlphanum = true ∨ c = '#' := by
  obtain ⟨n, digits, hcs, h⟩ := isImmediate_iff.mp h
  rw [hcs]
  exact List.forall_mem_cons.mpr ⟨.inr rfl, fun c hc => .inl (h.isAlphanum c hc)⟩

theorem toList_trimmed_of_isNumeral {pre post digits : List Char} {mark : Char}
    (hpre : Text.IsGap pre) (hpost : Text.IsGap post) (hdigits : Text.IsNumeral digits n)
    (hmark : isLabelRest mark = true ∨ mark = '#') (ht : t.toList = pre ++ mark :: digits ++ post) :
    (trimmed t).toList = mark :: digits := by
  have hword : SourceLine.IsOperand (mark :: digits) := by
    refine SourceLine.isOperand_of_forall (List.cons_ne_nil _ _) ?_
    refine List.forall_mem_cons.mpr ⟨hmark, fun c hc => .inl ?_⟩
    simp [isLabelRest, hdigits.isAlphanum c hc]
  rw [Text.toList_trimmed, ht, List.append_assoc, hpre.trim_append, hpost.append_trim,
    Text.trim_of_isWord hword.1]

/-- What a token looks like, told by the names and numerals that there are. -/
theorem isRegister_iff_names : isRegister t = true ↔ (∃ n, (upper (trimmed t), n) ∈ aliases) ∨
    (∃ r : SpecialRegister, upper (trimmed t) = r.name) ∨
      ∃ n, Text.IsNumbered (trimmed t).toList n := by
  simp only [isRegister, isMarkedNumeral, Bool.or_eq_true, Option.isSome_iff_exists,
    alias?_eq_some_iff, SpecialRegister.ofName?_eq_some_iff, afterR?_bind_eq_some_iff, or_assoc]

/-- A token looks like a register if it has the number of one, has a number too large for one, or names
one that has no number. -/
theorem isRegister_iff_number : isRegister t = true ↔ (∃ n, registerNumber t = .ok n) ∨
    (∃ n, Text.IsNumbered (trimmed t).toList n ∧ UInt64.size ≤ n) ∨
      ∃ r : SpecialRegister, upper (trimmed t) = r.name := by
  rw [isRegister_iff_names]
  simp only [registerNumber_eq_ok_iff_names, exists_or]
  constructor
  · rintro (halias | hspecial | ⟨n, hn⟩)
    · exact .inl (.inl halias)
    · exact .inr (.inr hspecial)
    · rcases Nat.lt_or_ge n UInt64.size with hlt | hle
      · exact .inl (.inr ⟨n, hn, hlt⟩)
      · exact .inr (.inl ⟨n, hn, hle⟩)
  · rintro ((halias | ⟨n, hn, -⟩) | ⟨n, hn, -⟩ | hspecial)
    · exact .inl halias
    · exact .inr (.inr ⟨n, hn⟩)
    · exact .inr (.inr ⟨n, hn⟩)
    · exact .inr (.inl hspecial)

/-- Signs, separators and characters beyond ASCII. -/
theorem not_isAlphanum_of_foreign {c : Char} (h : c = '+' ∨ c = '-' ∨ c = '_' ∨ 128 ≤ c.toNat) :
    ¬(c.isAlphanum = true ∨ c = '#') := by
  obtain rfl | rfl | rfl | hlarge := h
  · decide
  · decide
  · decide
  · rintro (halphanum | rfl)
    · have hrest : isLabelRest c = true := by simp [isLabelRest, halphanum]
      have := SourceLine.toNat_of_isLabelRest hrest
      omega
    · exact absurd hlarge (by decide)

structure ReadsExactly (t : String) : Prop where
  /-- A literal is a number sign and a numeral for a word. -/
  literal : ∀ n, immediateValue t = .ok n ↔
    Text.IsLiteral (trimmed t).toList n ∧ n < UInt64.size
  /-- A register number is an alias, or `R` and a numeral for a word. -/
  number : ∀ n, registerNumber t = .ok n ↔
    (upper (trimmed t), n) ∈ [("SP", 13), ("LR", 14), ("PC", 15)] ∨
      Text.IsNumbered (trimmed t).toList n ∧ n < UInt64.size
  /-- Every other text breaks the rule for literals. -/
  noLiteral : (∀ n, Text.IsLiteral (trimmed t).toList n → UInt64.size ≤ n) →
    (immediateValue t).mapError Error.rule =
      .error (.rule (if (trimmed t).toList.head? = some '#' then .immediateDigits (trimmed t)
        else .notImmediate (trimmed t)))
  /-- Every other text breaks the rule for registers. -/
  noNumber : upper (trimmed t) ∉ ["SP", "LR", "PC"] →
    (∀ n, Text.IsNumbered (trimmed t).toList n → UInt64.size ≤ n) →
    (registerNumber t).mapError Error.rule =
      .error (.rule (if (trimmed t).toList.head?.map Char.toUpper = some 'R' then
        .registerDigits (trimmed t) else .notRegister (trimmed t)))
  /-- Signs, separators and digits of other scripts are no part of a number. -/
  foreign : ∀ c ∈ (trimmed t).toList, c = '+' ∨ c = '-' ∨ c = '_' ∨ 128 ≤ c.toNat →
    isRegister t = false ∧ isImmediate t = false ∧
      (∃ e, (registerNumber t).mapError Error.rule = .error (.rule e)) ∧
        ∃ e, (immediateValue t).mapError Error.rule = .error (.rule e)
  /-- What looks like an immediate is read as one unless its number is too large. -/
  looksImmediate : isImmediate t = true ↔ (∃ n, immediateValue t = .ok n) ∨
    ∃ n, Text.IsLiteral (trimmed t).toList n ∧ UInt64.size ≤ n
  /-- What looks like a register is read as a number unless its number is too large or it has
  none. -/
  looksRegister : isRegister t = true ↔ (∃ n, registerNumber t = .ok n) ∨
    (∃ n, Text.IsNumbered (trimmed t).toList n ∧ UInt64.size ≤ n) ∨
      ∃ r : SpecialRegister, upper (trimmed t) = r.name
  /-- Every rendering of a word is read back as it. -/
  readBack : ∀ n < UInt64.size, ∀ digits, Text.IsRendering n digits →
    ∀ pre post, Text.IsGap pre → Text.IsGap post →
      (t.toList = pre ++ '#' :: digits ++ post → immediateValue t = .ok n) ∧
        ∀ mark, mark = 'R' ∨ mark = 'r' →
          t.toList = pre ++ mark :: digits ++ post → registerNumber t = .ok n
  /-- A computer that reads bytes and adds up in words reads the same. -/
  host : Host.immediateValue t = immediateValue t ∧ Host.registerNumber t = registerNumber t ∧
    Host.isImmediate t = isImmediate t ∧ Host.isRegister t = isRegister t

/-- Numbered tokens are read exactly, whatever the text. -/
theorem numbers_are_read_exactly (t : String) : ReadsExactly t where
  literal _ := immediateValue_eq_ok_iff_literal
  number _ := registerNumber_eq_ok_iff_names
  noLiteral h := by
    rw [immediateValue_eq_error fun n hn => ?_]
    · rfl
    · obtain ⟨hliteral, hlt⟩ := immediateValue_eq_ok_iff_literal.mp hn
      exact absurd (h n hliteral) (Nat.not_le.mpr hlt)
  noNumber hname h := by
    rw [registerNumber_eq_error fun n hn => ?_]
    · rfl
    · obtain halias | ⟨hnumber, hlt⟩ := registerNumber_eq_ok_iff_names.mp hn
      · have hnames : ["SP", "LR", "PC"] = aliases.map Prod.fst := rfl
        rw [hnames] at hname
        exact hname (List.mem_map.mpr ⟨_, halias, rfl⟩)
      · exact absurd (h n hnumber) (Nat.not_le.mpr hlt)
  foreign c hc hforeign := by
    have hnone := not_isAlphanum_of_foreign hforeign
    have hregister : isRegister t = false :=
      Bool.eq_false_iff.mpr fun h => hnone (.inl (isAlphanum_of_isRegister h c hc))
    have himmediate : isImmediate t = false :=
      Bool.eq_false_iff.mpr fun h => hnone (isAlphanum_of_isImmediate h c hc)
    refine ⟨hregister, himmediate, ?_, ?_⟩
    · rw [registerNumber_eq_error fun n hn => ?_]
      · exact ⟨_, rfl⟩
      · rw [isRegister_of_registerNumber hn] at hregister
        cases hregister
    · rw [immediateValue_eq_error fun n hn => ?_]
      · exact ⟨_, rfl⟩
      · rw [isImmediate_of_immediateValue hn] at himmediate
        cases himmediate
  looksImmediate := by
    rw [isImmediate_iff]
    simp only [immediateValue_eq_ok_iff_literal, ← exists_or, ← and_or_left, Nat.lt_or_ge, and_true]
  looksRegister := isRegister_iff_number
  readBack n hn digits hdigits pre post hpre hpost := by
    have hnumeral := hdigits.isNumeral
    constructor
    · intro ht
      have htrimmed := toList_trimmed_of_isNumeral hpre hpost hnumeral (.inr rfl) ht
      exact immediateValue_eq_ok_iff_literal.mpr ⟨⟨digits, htrimmed, hnumeral⟩, hn⟩
    · intro mark hmark ht
      have hletter : isLabelRest mark = true := by
        rcases hmark with rfl | rfl <;> decide
      have htrimmed := toList_trimmed_of_isNumeral hpre hpost hnumeral (.inl hletter) ht
      exact registerNumber_eq_ok_iff_names.mpr (.inr ⟨⟨mark, digits, hmark, htrimmed, hnumeral⟩, hn⟩)
  host := ⟨Host.immediateValue_eq t, Host.registerNumber_eq t, Host.isImmediate_eq t,
    Host.isRegister_eq t⟩

/-- The greatest word is read back in mixed case and with leading zeros; the number after it has the
right shape only, and a sign not even that. -/
theorem numbers_are_read_exactly_topmost :
    immediateValue "\t#0X00fFFfffFFffffFFFF " = .ok 18446744073709551615 ∧
      isImmediate "#18446744073709551616" = true ∧
      (immediateValue "#18446744073709551616").mapError Error.rule =
        .error (.rule (.immediateDigits "#18446744073709551616")) ∧
      isRegister "R+5" = false ∧ ∃ e, (registerNumber "R+5").mapError Error.rule = .error (.rule e) := by
  have hread {n : ℕ} (h : Text.IsLiteral (trimmed "#18446744073709551616").toList n) :
      n = 18446744073709551616 := by
    have hvalue : (afterHash? (trimmed "#18446744073709551616").toList).bind Text.numeral? =
        some 18446744073709551616 := by decide +kernel
    rw [← afterHash?_bind_eq_some_iff, hvalue] at h
    exact (Option.some.inj h).symm
  have hlarge : Text.IsLiteral (trimmed "#18446744073709551616").toList 18446744073709551616 :=
    ⟨Nat.toDigits 10 18446744073709551616, by decide +kernel,
      Text.IsRendering.isNumeral (.inl ⟨0, _, rfl, rfl⟩)⟩
  have hsign := (numbers_are_read_exactly "R+5").foreign '+' (by decide +kernel) (.inl rfl)
  refine ⟨?_, ?_, ?_, hsign.1, hsign.2.2.1⟩
  · have htab : Text.IsGap ['\t'] := by simp [Text.IsGap, Text.isBlank]
    refine ((numbers_are_read_exactly _).readBack _ (by decide) "0X00fFFfffFFffffFFFF".toList ?_
      ['\t'] [' '] htab Text.isGap_space).1 (by decide +kernel)
    exact .inr ⟨'X', "00fFFfffFFffffFFFF".toList, .inr rfl, by decide +kernel, 2,
      "fFFfffFFffffFFFF".toList, by decide +kernel, by decide +kernel⟩
  · exact (numbers_are_read_exactly _).looksImmediate.mpr (.inr ⟨_, hlarge, by decide⟩)
  · refine ((numbers_are_read_exactly _).noLiteral fun n hn => ?_).trans (by decide +kernel)
    exact (hread hn).ge

end Token
end Thumb
