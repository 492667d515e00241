import Thumb.Constraint.Check
import Thumb.Proofs.Outcome
import Thumb.Proofs.Trimming

/-! What operand tokens say. The lexical classes exclude each other, so that a token says at most one
thing: the name of a register, the name of a special register, a literal number or a label. -/
namespace Thumb

inductive Written
  | register (r : Register)
  | special (r : SpecialRegister)
  | literal (n : Nat)
  | label (name : String)
  deriving DecidableEq

/-- What a token of each kind says. A register token whose number is that of no architectural
register says nothing, nor does a literal that is too large for a word. -/
inductive Token.Says : Token → Written → Prop
  | register {text : String} {r : Register} (h : registerNumber text = .ok r.index) :
      Says ⟨.register, text⟩ (.register r)
  | special {text : String} {r : SpecialRegister}
      (h : SpecialRegister.ofName? (Text.trimmed text) = some r) :
      Says ⟨.register, text⟩ (.special r)
  | literal {text : String} {n : Nat} (h : immediateValue text = .ok n) :
      Says ⟨.immediate, text⟩ (.literal n)
  | label {text : String} : Says ⟨.label, text⟩ (.label text)

def Written.kind : Written → TokenKind
  | register _ | special _ => .register
  | literal _ => .immediate
  | label _ => .label

theorem Token.Says.kind_eq {t : Token} {w : Written} (h : t.Says w) : t.kind = w.kind := by
  cases h <;> rfl

namespace Text

/-- A name that is found starts as the text does, up to case. -/
theorem head?_of_findNamed? {α : Type} {name : α → String} {as : List α} {s : String} {a : α}
    (h : findNamed? name as s = some a) :
    a ∈ as ∧ (name a).toList.head? = s.toList.head?.map Char.toUpper := by
  obtain ⟨hname, hmem⟩ := findNamed?_eq_some h
  refine ⟨hmem, ?_⟩
  rw [hname, toList_upper, List.head?_map]

end Text

namespace Token

open Text (trimmed trimmed_trimmed)

@[simp] theorem registerNumber_trimmed (text : String) :
    registerNumber (trimmed text) = registerNumber text := by
  simp only [registerNumber, trimmed_trimmed]

@[simp] theorem immediateValue_trimmed (text : String) :
    immediateValue (trimmed text) = immediateValue text := by
  simp only [immediateValue, trimmed_trimmed]

@[simp] theorem isRegister_trimmed (text : String) :
    isRegister (trimmed text) = isRegister text := by
  simp only [isRegister, trimmed_trimmed]

@[simp] theorem isImmediate_trimmed (text : String) :
    isImmediate (trimmed text) = isImmediate text := by
  simp only [isImmediate, trimmed_trimmed]

theorem head?_of_alias {text : String} {n : Nat} (h : alias? text = some n) :
    text.toList.head?.map Char.toUpper ∈ [some 'S', some 'L', some 'P'] := by
  have table : ∀ p ∈ [("SP", 13), ("LR", 14), ("PC", 15)],
      p.1.toList.head? ∈ [some 'S', some 'L', some 'P'] := by decide +kernel
  obtain ⟨p, hp, -⟩ := Option.map_eq_some_iff.mp h
  obtain ⟨hmem, hhead⟩ := Text.head?_of_findNamed? hp
  rw [← hhead]
  exact table p hmem

theorem head?_of_special {text : String} {r : SpecialRegister}
    (h : SpecialRegister.ofName? text = some r) :
    text.toList.head?.map Char.toUpper ∈
      [some 'A', some 'I', some 'E', some 'X', some 'P', some 'M', some 'C'] := by
  obtain ⟨-, hhead⟩ := Text.head?_of_findNamed? h
  rw [← hhead]
  cases r <;> decide +kernel

theorem afterR?_eq_some {cs rest : List Char} (h : afterR? cs = some rest) :
    cs.head?.map Char.toUpper = some 'R' := by
  unfold afterR? at h
  split at h
  · rfl
  · rfl
  · cases h

theorem afterHash?_eq_some {cs rest : List Char} (h : afterHash? cs = some rest) :
    cs.head?.map Char.toUpper = some '#' := by
  unfold afterHash? at h
  split at h
  · rfl
  · cases h

/-- A register number is written as an alias or as a word after `R`. -/
theorem registerNumber_eq_ok_iff {text : String} {n : Nat} :
    registerNumber text = .ok n ↔ alias? (trimmed text) = some n ∨
      alias? (trimmed text) = none ∧
        ∃ digits, afterR? (trimmed text).toList = some digits ∧ Text.word? digits = some n := by
  unfold registerNumber
  generalize trimmed text = t
  dsimp only
  cases alias? t with
  | some k => simp
  | none =>
    cases afterR? t.toList with
    | none => simp
    | some digits => cases h : Text.word? digits <;> simp [h]

/-- A literal is a word after a number sign. -/
theorem immediateValue_eq_ok_iff {text : String} {n : Nat} :
    immediateValue text = .ok n ↔
      ∃ digits, afterHash? (trimmed text).toList = some digits ∧ Text.word? digits = some n := by
  unfold immediateValue
  generalize trimmed text = t
  dsimp only
  cases afterHash? t.toList with
  | none => simp
  | some digits => cases h : Text.word? digits <;> simp [h]

theorem ofName?_eq_none_of_registerNumber {text : String} {n : Nat}
    (h : registerNumber text = .ok n) : SpecialRegister.ofName? (trimmed text) = none := by
  cases hs : SpecialRegister.ofName? (trimmed text) with
  | none => rfl
  | some r =>
    exfalso
    rcases registerNumber_eq_ok_iff.mp h with ha | ⟨-, digits, hd, -⟩
    · have table : ∀ p ∈ [("SP", 13), ("LR", 14), ("PC", 15)],
          ∀ r ∈ SpecialRegister.all, p.1 ≠ r.name := by decide +kernel
      obtain ⟨p, hp, -⟩ := Option.map_eq_some_iff.mp ha
      obtain ⟨hname, hmem⟩ := Text.findNamed?_eq_some hp
      exact table p hmem r r.mem_all (hname.trans (Text.findNamed?_eq_some hs).1.symm)
    · have hhead := head?_of_special hs
      rw [afterR?_eq_some hd] at hhead
      revert hhead
      decide

theorem isRegister_of_registerNumber {text : String} {n : Nat} (h : registerNumber text = .ok n) :
    isRegister text = true := by
  unfold isRegister isMarkedNumeral
  dsimp only
  rcases registerNumber_eq_ok_iff.mp h with ha | ⟨-, digits, hd, hn⟩
  · simp [ha]
  · rw [hd, Option.bind_some, (Text.word?_eq_some_iff.mp hn).1]
    simp

theorem isRegister_of_special {text : String} {r : SpecialRegister}
    (h : SpecialRegister.ofName? (trimmed text) = some r) : isRegister text = true := by
  simp [isRegister, h]

theorem isImmediate_of_immediateValue {text : String} {n : Nat}
    (h : immediateValue text = .ok n) : isImmediate text = true := by
  obtain ⟨digits, hd, hn⟩ := immediateValue_eq_ok_iff.mp h
  rw [isImmediate, isMarkedNumeral, hd, Option.bind_some, (Text.word?_eq_some_iff.mp hn).1]
  rfl

theorem isRegister_eq_false_of_isImmediate {text : String} (h : isImmediate text = true) :
    isRegister text = false := by
  obtain ⟨n, hn⟩ := Option.isSome_iff_exists.mp h
  obtain ⟨digits, hd, -⟩ := Option.bind_eq_some_iff.mp hn
  have hash := afterHash?_eq_some hd
  by_contra hr
  simp only [isRegister, Bool.not_eq_false, Bool.or_eq_true, Option.isSome_iff_exists] at hr
  rcases hr with (⟨k, hk⟩ | ⟨r, hr⟩) | hm
  · have hhead := head?_of_alias hk
    rw [hash] at hhead
    revert hhead
    decide
  · have hhead := head?_of_special hr
    rw [hash] at hhead
    revert hhead
    decide
  · obtain ⟨k, hk⟩ := Option.isSome_iff_exists.mp hm
    obtain ⟨rest, hrest, -⟩ := Option.bind_eq_some_iff.mp hk
    rw [afterR?_eq_some hrest] at hash
    revert hash
    decide

/-- Tokens that classification yields, where labels are allowed or where they are not. -/
def IsClassified (t : Token) : Prop := ∃ allowLabel text, classify allowLabel text = .ok t

theorem kind_of_classify {allowLabel : Bool} {text : String} {t : Token}
    (h : classify allowLabel text = .ok t) :
    (t.kind = .register ↔ isRegister t.text = true) ∧
      (t.kind = .immediate ↔ isImmediate t.text = true) := by
  unfold classify at h
  split at h
  · next hr =>
    cases h
    have hi : ¬isImmediate text = true := fun hi => by
      rw [isRegister_eq_false_of_isImmediate hi] at hr
      cases hr
    simp [hr, hi]
  · next hr =>
    split at h
    · next hi =>
      cases h
      simp [hr, hi]
    · next hi =>
      split at h
      · cases h
        simp [hr, hi]
      · cases h

theorem says_register_iff {t : Token} (ht : t.IsClassified) {r : Register} :
    t.Says (.register r) ↔ registerNumber t.text = .ok r.index := by
  constructor
  · intro h
    cases h with
    | register h => exact h
  · intro h
    obtain ⟨allowLabel, text, hclass⟩ := ht
    have hkind := (kind_of_classify hclass).1.mpr (isRegister_of_registerNumber h)
    obtain ⟨kind, text⟩ := t
    cases hkind
    exact .register h

theorem says_special_iff {t : Token} (ht : t.IsClassified) {r : SpecialRegister} :
    t.Says (.special r) ↔ SpecialRegister.ofName? (trimmed t.text) = some r := by
  constructor
  · intro h
    cases h with
    | special h => exact h
  · intro h
    obtain ⟨allowLabel, text, hclass⟩ := ht
    have hkind := (kind_of_classify hclass).1.mpr (isRegister_of_special h)
    obtain ⟨kind, text⟩ := t
    cases hkind
    exact .special h

theorem says_literal_iff {t : Token} (ht : t.IsClassified) {n : Nat} :
    t.Says (.literal n) ↔ immediateValue t.text = .ok n := by
  constructor
  · intro h
    cases h with
    | literal h => exact h
  · intro h
    obtain ⟨allowLabel, text, hclass⟩ := ht
    have hkind := (kind_of_classify hclass).2.mpr (isImmediate_of_immediateValue h)
    obtain ⟨kind, text⟩ := t
    cases hkind
    exact .literal h

theorem says_label_iff {t : Token} {name : String} :
    t.Says (.label name) ↔ t.kind = .label ∧ t.text = name := by
  constructor
  · rintro ⟨⟩
    exact ⟨rfl, rfl⟩
  · obtain ⟨kind, text⟩ := t
    rintro ⟨rfl, rfl⟩
    exact .label

end Token

theorem RegisterClass.admits_iff {c : RegisterClass} {n : Nat} :
    c.admits n = true ↔ c.link = true ∧ n = 14 ∨ c.low ≤ n ∧ n ≤ c.high := by
  simp [admits]

theorem ImmediateRange.admits_iff {range : ImmediateRange} {n : Nat} :
    range.admits n = true ↔ (range.low ≤ n ∧ n ≤ range.high) ∧ n % range.step = 0 := by
  simp [admits]

theorem ImmediateRange.admits_of_le {low high n : Nat} (hlow : low ≤ n) (hhigh : n ≤ high) :
    ImmediateRange.admits ⟨low, high, 1⟩ n = true :=
  admits_iff.mpr ⟨⟨hlow, hhigh⟩, Nat.mod_one n⟩

theorem ImmediateRange.admits_of_dvd {high step n : Nat} (hhigh : n ≤ high) (hstep : step ∣ n) :
    ImmediateRange.admits ⟨0, high, step⟩ n = true :=
  admits_iff.mpr ⟨⟨Nat.zero_le n, hhigh⟩, Nat.mod_eq_zero_of_dvd hstep⟩

/-- A text is accepted as a member of a register class exactly when it is the number of one that the
machine has. -/
theorem RegisterClass.check_eq_ok_iff_lt {c : RegisterClass} {count n : Nat} {text : String} :
    c.check count (Text.trimmed text) = .ok n ↔
      Token.registerNumber text = .ok n ∧ n < count ∧ c.admits n = true := by
  unfold check
  split
  · next h =>
    refine iff_of_false nofun ?_
    rintro ⟨hn, -⟩
    rw [Token.isRegister_trimmed, Token.isRegister_of_registerNumber hn,
      Token.ofName?_eq_none_of_registerNumber hn] at h
    cases h
  · rw [bind_eq_ok_iff, Token.registerNumber_trimmed]
    constructor
    · rintro ⟨k, hk, h⟩
      split at h
      · cases h
      · next hlt =>
        obtain ⟨hadm, rfl⟩ := guard_eq_ok_iff.mp h
        exact ⟨hk, Nat.not_le.mp hlt, hadm⟩
    · rintro ⟨hn, hlt, hadm⟩
      refine ⟨n, hn, ?_⟩
      rw [if_neg (Nat.not_le.mpr hlt), if_pos hadm]

/-- A machine that has the whole class accepts every member. -/
theorem RegisterClass.check_eq_ok_iff {c : RegisterClass} {count n : Nat} {text : String}
    (hc : ∀ k, c.admits k = true → k < count) :
    c.check count (Text.trimmed text) = .ok n ↔
      Token.registerNumber text = .ok n ∧ c.admits n = true := by
  rw [check_eq_ok_iff_lt, and_iff_right_of_imp (hc n)]

theorem checkMultiple_eq_ok_iff {value step : Nat} :
    checkMultiple value step = .ok () ↔ step ≠ 0 ∧ value % step = 0 := by
  unfold checkMultiple
  by_cases hstep : step = 0
  · simp [hstep]
  · simp [hstep]

theorem ImmediateRange.check_eq_ok_iff {range : ImmediateRange} {c : Constraint} {n : Nat}
    {text : String} (hstep : range.step ≠ 0) :
    range.check c (Text.trimmed text) = .ok n ↔
      Token.immediateValue text = .ok n ∧ range.admits n = true := by
  unfold check
  split
  · next h =>
    refine iff_of_false nofun ?_
    rintro ⟨hn, -⟩
    rw [Token.isImmediate_trimmed, Token.isImmediate_of_immediateValue hn] at h
    cases h
  · rw [bind_eq_ok_iff, Token.immediateValue_trimmed, admits_iff]
    constructor
    · rintro ⟨k, hk, h⟩
      split at h
      · cases h
      · split at h
        · cases h
        · split at h
          · next hmul =>
            cases h
            have hmod := (checkMultiple_eq_ok_iff.mp hmul).2
            exact ⟨hk, by omega, hmod⟩
          · cases h
    · rintro ⟨hn, ⟨hlow, hhigh⟩, hmod⟩
      refine ⟨n, hn, ?_⟩
      rw [if_neg (Nat.not_lt.mpr hhigh), if_neg (Nat.not_lt.mpr hlow),
        checkMultiple_eq_ok_iff.mpr ⟨hstep, hmod⟩]

namespace Constraint

variable {c : Constraint} {count : Nat} {t : Token}

/-- Under a constraint to a register class a token is accepted exactly when it says a member. -/
theorem register_eq_ok_iff {cls : RegisterClass} (hc : c.domain = .registers cls)
    (hhigh : cls.high < 16) (hcount : 16 ≤ count) (ht : t.IsClassified) {r : Register} :
    c.register count t.text = .ok r ↔ t.Says (.register r) ∧ cls.admits r.index = true := by
  have hcls : ∀ k, cls.admits k = true → k < 16 := by
    intro k hk
    have hk := RegisterClass.admits_iff.mp hk
    omega
  have hlt : ∀ k, cls.admits k = true → k < count := by
    intro k hk
    exact Nat.lt_of_lt_of_le (hcls k hk) hcount
  have hcheck : c.check count t.text =
      (cls.check count (Text.trimmed t.text)).map .register := by
    rw [check, hc]
  rw [register, bind_eq_ok_iff, hcheck, Token.says_register_iff ht,
    ← RegisterClass.check_eq_ok_iff hlt]
  constructor
  · rintro ⟨v, hv, h⟩
    obtain ⟨n, hn, rfl⟩ := map_eq_ok_iff.mp hv
    have hadm := ((RegisterClass.check_eq_ok_iff hlt).mp hn).2
    rw [← Except.ok.inj h, Register.index_ofIndex, Nat.mod_eq_of_lt (hcls n hadm)]
    exact hn
  · intro h
    exact ⟨_, map_eq_ok_iff.mpr ⟨_, h, rfl⟩, congrArg Except.ok r.ofIndex_index⟩

theorem immediate_eq_ok_iff {range : ImmediateRange} (hc : c.domain = .immediates range)
    (hstep : range.step ≠ 0) (ht : t.IsClassified) {n : Nat} :
    c.immediate count t.text = .ok n ↔ t.Says (.literal n) ∧ range.admits n = true := by
  have hcheck : c.check count t.text =
      (range.check c (Text.trimmed t.text)).map .immediate := by
    rw [check, hc]
  rw [immediate, bind_eq_ok_iff, hcheck, Token.says_literal_iff ht,
    ← ImmediateRange.check_eq_ok_iff (c := c) hstep]
  constructor
  · rintro ⟨v, hv, h⟩
    obtain ⟨k, hk, rfl⟩ := map_eq_ok_iff.mp hv
    rw [← Except.ok.inj h]
    exact hk
  · intro h
    exact ⟨_, map_eq_ok_iff.mpr ⟨_, h, rfl⟩, rfl⟩

theorem special_eq_ok_iff (ht : t.IsClassified) {r : SpecialRegister} :
    specialRegisters.special count t.text = .ok r ↔ t.Says (.special r) := by
  rw [Token.says_special_iff ht, special, check, domain, bind_eq_ok_iff]
  generalize SpecialRegister.ofName? (Text.trimmed t.text) = found
  cases found <;> simp

end Constraint
end Thumb
