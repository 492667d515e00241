import Thumb.Proofs.Numerals
import Thumb.Proofs.TokenReading
import Thumb.RegisterFile.Named

/-! What register names denote, told without looking them up: a name in letters denotes what a table
says, in either case, and `R` with a numeral denotes a numbered register. The two kinds of names have
nothing in common. -/
namespace Thumb

/-- The text is `R`, in either case, and a numeral for the number. -/
def Text.IsNumbered (cs : List Char) (n : ℕ) : Prop :=
  ∃ c digits, (c = 'R' ∨ c = 'r') ∧ cs = c :: digits ∧ IsNumeral digits n

namespace Location

def names (s : Shape) : List (String × Location s) :=
  [("SP", .slot (s.slot .sp)), ("LR", .slot (s.slot .lr)), ("PC", .slot (s.slot .pc)),
    ("APSR", .flags), ("IAPSR", .flags), ("EAPSR", .flags), ("XPSR", .flags), ("PSR", .flags),
    ("IPSR", .zero), ("EPSR", .zero), ("IEPSR", .zero), ("MSP", .slot (s.slot .sp)), ("PSP", .psp),
    ("PRIMASK", .primask), ("CONTROL", .control)]

/-- But for blanks around it and for case, the name is one in letters or one with a number, which has
to be a word. -/
inductive IsNamed {s : Shape} (name : String) : Location s → Prop
  | letters {l : Location s} (h : (Text.upper (Text.trimmed name), l) ∈ names s) : IsNamed name l
  | number {i : Fin s.registerCount} (h : Text.IsNumbered (Text.trimmed name).toList i)
    (hi : i < UInt64.size) : IsNamed name (.slot i)

end Location

/-- What is found for a text depends on its letters only, not on their case. -/
theorem Text.findNamed?_congr {α : Type} {name : α → String} {as : List α} {t t' : String}
    (h : upper t = upper t') : findNamed? name as t = findNamed? name as t' := by
  rw [findNamed?, findNamed?, h]

theorem SpecialRegister.ofName?_eq_some_iff {t : String} {r : SpecialRegister} :
    ofName? t = some r ↔ Text.upper t = r.name := by
  constructor
  · intro h
    exact (Text.findNamed?_eq_some h).1.symm
  · intro h
    have hupper : Text.upper t = Text.upper r.name := by
      rw [h]
      cases r <;> decide +kernel
    exact (Text.findNamed?_congr hupper).trans r.ofName?_name

namespace Token

open Text (trimmed trimmed_trimmed)

def aliases : List (String × ℕ) := [("SP", 13), ("LR", 14), ("PC", 15)]

theorem alias?_eq_some_iff {t : String} {n : ℕ} :
    alias? t = some n ↔ (Text.upper t, n) ∈ aliases := by
  constructor
  · intro h
    obtain ⟨p, hp, rfl⟩ := Option.map_eq_some_iff.mp h
    obtain ⟨hname, hmem⟩ := Text.findNamed?_eq_some hp
    rw [← hname]
    exact hmem
  · intro h
    have table : ∀ p ∈ aliases, Text.upper p.1 = p.1 ∧ alias? p.1 = some p.2 := by decide +kernel
    obtain ⟨hupper, halias⟩ := table _ h
    rw [← halias]
    exact congrArg (Option.map Prod.snd) (Text.findNamed?_congr hupper.symm)

theorem afterR?_eq_some_iff {cs rest : List Char} :
    afterR? cs = some rest ↔ ∃ c, (c = 'R' ∨ c = 'r') ∧ cs = c :: rest := by
  constructor
  · intro h
    unfold afterR? at h
    split at h
    · cases h
      exact ⟨'R', .inl rfl, rfl⟩
    · cases h
      exact ⟨'r', .inr rfl, rfl⟩
    · cases h
  · rintro ⟨c, rfl | rfl, rfl⟩ <;> rfl

theorem afterR?_bind_eq_some_iff {cs : List Char} {n : ℕ} :
    (afterR? cs).bind Text.numeral? = some n ↔ Text.IsNumbered cs n := by
  simp only [Option.bind_eq_some_iff, afterR?_eq_some_iff, Text.numeral?_eq_some_iff,
    Text.IsNumbered]
  constructor
  · rintro ⟨digits, ⟨c, hc, hcs⟩, hn⟩
    exact ⟨c, digits, hc, hcs, hn⟩
  · rintro ⟨c, digits, hc, hcs, hn⟩
    exact ⟨digits, ⟨c, hc, hcs⟩, hn⟩

/-- No name in letters that stands for a number starts with an `R`. -/
theorem alias?_eq_none_of_isNumbered {t : String} {n : ℕ} (h : Text.IsNumbered t.toList n) :
    alias? t = none := by
  obtain ⟨c, digits, hc, hcs, -⟩ := h
  have hupper : t.toList.head?.map Char.toUpper = some 'R' := by
    rw [hcs]
    rcases hc with rfl | rfl <;> rfl
  cases ha : alias? t with
  | none => rfl
  | some k =>
    have hhead := head?_of_alias ha
    rw [hupper] at hhead
    exact absurd hhead (by decide)

/-- The numbers that a text can give for a register. -/
theorem registerNumber_eq_ok_iff_names {t : String} {n : ℕ} :
    registerNumber t = .ok n ↔ (Text.upper (trimmed t), n) ∈ aliases ∨
      Text.IsNumbered (trimmed t).toList n ∧ n < UInt64.size := by
  rw [registerNumber_eq_ok_iff, alias?_eq_some_iff]
  apply or_congr_right
  simp only [Text.word?_eq_some_iff]
  constructor
  · rintro ⟨-, digits, hd, hn, hlt⟩
    exact ⟨afterR?_bind_eq_some_iff.mp (Option.bind_eq_some_iff.mpr ⟨digits, hd, hn⟩), hlt⟩
  · rintro ⟨h, hlt⟩
    obtain ⟨digits, hd, hn⟩ := Option.bind_eq_some_iff.mp (afterR?_bind_eq_some_iff.mpr h)
    exact ⟨alias?_eq_none_of_isNumbered h, digits, hd, hn, hlt⟩

end Token

namespace Location

variable {s : Shape}

theorem mem_names_iff {u : String} {l : Location s} :
    (u, l) ∈ names s ↔ (∃ i : Fin s.registerCount, (u, i.val) ∈ Token.aliases ∧ l = .slot i) ∨
      ∃ r : SpecialRegister, u = r.name ∧ l = r.location s := by
  have hnames : names s =
      [("SP", .slot (s.slot .sp)), ("LR", .slot (s.slot .lr)), ("PC", .slot (s.slot .pc))] ++
        SpecialRegister.all.map fun r => (r.name, r.location s) := rfl
  have hslot {i : Fin s.registerCount} {r : Register} (h : i.val = r.index) : i = s.slot r :=
    Fin.ext h
  rw [hnames, List.mem_append]
  apply or_congr
  · constructor
    · intro h
      simp only [List.mem_cons, Prod.mk.injEq, List.not_mem_nil, or_false] at h
      rcases h with ⟨rfl, rfl⟩ | ⟨rfl, rfl⟩ | ⟨rfl, rfl⟩
      · exact ⟨s.slot .sp, .head _, rfl⟩
      · exact ⟨s.slot .lr, .tail _ (.head _), rfl⟩
      · exact ⟨s.slot .pc, .tail _ (.tail _ (.head _)), rfl⟩
    · rintro ⟨i, h, rfl⟩
      simp only [Token.aliases, List.mem_cons, Prod.mk.injEq, List.not_mem_nil, or_false] at h
      rcases h with ⟨rfl, h⟩ | ⟨rfl, h⟩ | ⟨rfl, h⟩
      · simp [hslot (r := .sp) h]
      · simp [hslot (r := .lr) h]
      · simp [hslot (r := .pc) h]
  · rw [List.mem_map]
    constructor
    · rintro ⟨r, -, heq⟩
      cases heq
      exact ⟨r, rfl, rfl⟩
    · rintro ⟨r, rfl, rfl⟩
      exact ⟨r, r.mem_all, rfl⟩

theorem ofName_eq_ok_iff {name : String} {l : Location s} :
    ofName s name = .ok l ↔ IsNamed name l := by
  unfold ofName
  dsimp only
  cases hr : SpecialRegister.ofName? (Text.trimmed name) with
  | some r =>
    have hnumber (n : ℕ) : Token.registerNumber name ≠ .ok n := by
      intro hn
      rw [Token.ofName?_eq_none_of_registerNumber hn] at hr
      cases hr
    constructor
    · rintro ⟨⟩
      exact .letters (mem_names_iff.mpr (.inr ⟨r, SpecialRegister.ofName?_eq_some_iff.mp hr, rfl⟩))
    · rintro (h | ⟨h, hlt⟩)
      · obtain ⟨i, hi, -⟩ | ⟨r', hr', rfl⟩ := mem_names_iff.mp h
        · exact absurd (Token.registerNumber_eq_ok_iff_names.mpr (.inl hi)) (hnumber i)
        · rw [SpecialRegister.ofName?_eq_some_iff.mpr hr'] at hr
          cases hr
          rfl
      · exact absurd (Token.registerNumber_eq_ok_iff_names.mpr (.inr ⟨h, hlt⟩)) (hnumber _)
  | none =>
    dsimp only
    rw [bind_eq_ok_iff, Token.registerNumber_trimmed]
    constructor
    · rintro ⟨n, hn, h⟩
      split at h
      · next hlt =>
        cases h
        obtain ha | ⟨hn, hword⟩ := Token.registerNumber_eq_ok_iff_names.mp hn
        · exact .letters (mem_names_iff.mpr (.inl ⟨⟨n, hlt⟩, ha, rfl⟩))
        · exact .number (i := ⟨n, hlt⟩) hn hword
      · cases h
    · have hfound {i : Fin s.registerCount} (hi : Token.registerNumber name = .ok i.val) :
          ∃ n, Token.registerNumber name = .ok n ∧
            (if h : n < s.registerCount then Except.ok (Location.slot ⟨n, h⟩)
              else .error (OperandError.noSuchRegister (Text.trimmed name) s.registerCount)) =
                .ok (.slot i) :=
        ⟨i, hi, dif_pos i.isLt⟩
      rintro (h | ⟨h, hlt⟩)
      · obtain ⟨i, hi, rfl⟩ | ⟨r, hr', -⟩ := mem_names_iff.mp h
        · exact hfound (Token.registerNumber_eq_ok_iff_names.mpr (.inl hi))
        · rw [SpecialRegister.ofName?_eq_some_iff.mpr hr'] at hr
          cases hr
      · exact hfound (Token.registerNumber_eq_ok_iff_names.mpr (.inr ⟨h, hlt⟩))

end Location

def registerNames : List String :=
  ["SP", "LR", "PC", "APSR", "IAPSR", "EAPSR", "XPSR", "PSR", "IPSR", "EPSR", "IEPSR", "MSP", "PSP",
    "PRIMASK", "CONTROL"]

/-- A text looks like a register exactly when it is a register name in letters or `R` and a numeral,
of whatever number. -/
theorem Token.isRegister_iff {t : String} :
    isRegister t = true ↔ Text.upper (Text.trimmed t) ∈ registerNames ∨
      ∃ n, Text.IsNumbered (Text.trimmed t).toList n := by
  have hletters : Text.upper (Text.trimmed t) ∈ registerNames ↔
      (alias? (Text.trimmed t)).isSome = true ∨
        (SpecialRegister.ofName? (Text.trimmed t)).isSome = true := by
    have hnames : registerNames =
        aliases.map Prod.fst ++ SpecialRegister.all.map SpecialRegister.name := rfl
    rw [hnames, List.mem_append, List.mem_map, List.mem_map]
    simp only [Option.isSome_iff_exists, alias?_eq_some_iff, SpecialRegister.ofName?_eq_some_iff]
    apply or_congr
    · constructor
      · rintro ⟨⟨u, n⟩, h, rfl⟩
        exact ⟨n, h⟩
      · rintro ⟨n, h⟩
        exact ⟨_, h, rfl⟩
    · constructor
      · rintro ⟨r, -, h⟩
        exact ⟨r, h.symm⟩
      · rintro ⟨r, h⟩
        exact ⟨r, r.mem_all, h.symm⟩
  have hnumber : isMarkedNumeral afterR? (Text.trimmed t) = true ↔
      ∃ n, Text.IsNumbered (Text.trimmed t).toList n := by
    rw [isMarkedNumeral, Option.isSome_iff_exists]
    exact exists_congr fun _ => afterR?_bind_eq_some_iff
  simp only [isRegister, Bool.or_eq_true, hletters, hnumber]

/-- Whatever names a location looks like a register. -/
theorem Location.isRegister_of_ofName {s : Shape} {name : String} {l : Location s}
    (h : ofName s name = .ok l) : Token.isRegister name = true := by
  have hnames : registerNames = (names s).map Prod.fst := rfl
  obtain hletters | ⟨hnumber, -⟩ := ofName_eq_ok_iff.mp h
  · rw [Token.isRegister_iff, hnames]
    exact .inl (List.mem_map.mpr ⟨_, hletters, rfl⟩)
  · exact Token.isRegister_iff.mpr (.inr ⟨_, hnumber⟩)

end Thumb
