import Thumb.Proofs.Outcome
import Thumb.Proofs.Trimming
import Thumb.SourceLine

/-! The written form of a line, as a grammar that does not mention how lines are cut: a label or
nothing, blanks, a name, operands with commas between them, and a comment. Every line that is cut
into parts is of this form, and a line of this form is cut into exactly its parts. -/
namespace Thumb
namespace SourceLine

open Text

def IsOperand (cs : List Char) : Prop := IsWord cs ∧ ',' ∉ cs ∧ ';' ∉ cs

/-- The text is the given operands, at least one, with commas between them and blanks anywhere. -/
inductive SpellsOperands : List (List Char) → List Char → Prop
  | one {pre op post : List Char} (hpre : IsGap pre) (hop : IsOperand op) (hpost : IsGap post) :
      SpellsOperands [op] (pre ++ op ++ post)
  | cons {pre op post rest : List Char} {ops : List (List Char)} (hpre : IsGap pre)
      (hop : IsOperand op) (hpost : IsGap post) (h : SpellsOperands ops rest) :
      SpellsOperands (op :: ops) (pre ++ op ++ post ++ ',' :: rest)

/-- The text after a name: blanks only, or operands after a blank. -/
inductive SpellsRest : List (List Char) → List Char → Prop
  | none {gap : List Char} (h : IsGap gap) : SpellsRest [] gap
  | some {ops : List (List Char)} {text : List Char} (hstart : StartsBlank text)
      (h : SpellsOperands ops text) : SpellsRest ops text

/-- A line of the given parts. What comes before the comment holds no semicolon. -/
structure SpellsChars (line : List Char) (label : Option (List Char)) (name : List Char)
    (ops : List (List Char)) : Prop where
  isWord_label : ∀ l ∈ label, IsWord l ∧ ';' ∉ l
  isWord_name : IsWord name ∧ ';' ∉ name
  exists_eq : ∃ gap rest comment, IsGap gap ∧ gap ≠ [] ∧ SpellsRest ops rest ∧
    (comment = [] ∨ ∃ text, comment = ';' :: text) ∧
    line = label.getD [] ++ gap ++ name ++ rest ++ comment

def Spells (line : String) (label : Option String) (name : String) (operands : List String) :
    Prop :=
  SpellsChars line.toList (label.map String.toList) name.toList (operands.map String.toList)

/-- The parts make up the line: the label in the first column, if there is one, then blanks, the
name, blanks before the operands, if there are any, the operands without the blanks around them,
blanks, and a comment. -/
structure Composes (parts : SourceLine) (line : String) : Prop where
  isLabel_label : ∀ label ∈ parts.label,
    Token.isLabel label = true ∧ Token.isRegister label = false
  isWord_mnemonic : IsWord parts.mnemonic.toList ∧ ';' ∉ parts.mnemonic.toList
  trim_operands : trim parts.operands.toList = parts.operands.toList ∧ ';' ∉ parts.operands.toList
  exists_eq : ∃ lead gap post comment, IsGap lead ∧ lead ≠ [] ∧ IsGap gap ∧
    (parts.operands = "" ∨ gap ≠ []) ∧ IsGap post ∧
    (comment = [] ∨ ∃ text, comment = ';' :: text) ∧
    line.toList = (parts.label.map String.toList).getD [] ++ lead ++ parts.mnemonic.toList ++
      (gap ++ parts.operands.toList ++ post) ++ comment

theorem IsGap.not_mem {cs : List Char} {c : Char} (h : IsGap cs) (hc : isBlank c = false) :
    c ∉ cs := by
  intro hmem
  rw [h c hmem] at hc
  cases hc

theorem IsOperand.not_mem_comma {pre op post : List Char} (hop : IsOperand op) (hpre : IsGap pre)
    (hpost : IsGap post) : ',' ∉ pre ++ op ++ post := by
  have hcomma : isBlank ',' = false := by decide
  simp only [List.mem_append, not_or]
  exact ⟨⟨IsGap.not_mem hpre hcomma, hop.2.1⟩, IsGap.not_mem hpost hcomma⟩

theorem SpellsOperands.not_mem_semicolon {ops : List (List Char)} {text : List Char}
    (h : SpellsOperands ops text) : ';' ∉ text := by
  have hsemi : isBlank ';' = false := by decide
  induction h with
  | one hpre hop hpost =>
    simp only [List.mem_append, not_or]
    exact ⟨⟨IsGap.not_mem hpre hsemi, hop.2.2⟩, IsGap.not_mem hpost hsemi⟩
  | cons hpre hop hpost _ ih =>
    simp only [List.mem_append, List.mem_cons, not_or]
    exact ⟨⟨⟨IsGap.not_mem hpre hsemi, hop.2.2⟩, IsGap.not_mem hpost hsemi⟩, by decide, ih⟩

theorem SpellsRest.not_mem_semicolon {ops : List (List Char)} {text : List Char}
    (h : SpellsRest ops text) : ';' ∉ text := by
  cases h with
  | none h => exact IsGap.not_mem h (by decide)
  | some _ h => exact h.not_mem_semicolon

/-- The characters of an identifier lie between the full stop and the small letters. -/
theorem toNat_of_isLabelRest {c : Char} (h : Token.isLabelRest c = true) :
    (0x2e ≤ c.toNat ∧ c.toNat ≤ 0x7a) ∧ c.toNat ≠ 0x3b := by
  unfold Token.isLabelRest Char.isAlphanum Char.isAlpha Char.isUpper Char.isLower Char.isDigit at h
  simp only [Bool.or_eq_true, Bool.and_eq_true, decide_eq_true_eq, beq_iff_eq, ge_iff_le,
    UInt32.le_iff_toNat_le] at h
  rcases h with (((⟨hlow, hhigh⟩ | ⟨hlow, hhigh⟩) | ⟨hlow, hhigh⟩) | rfl) | rfl
  · change 65 ≤ c.toNat at hlow
    change c.toNat ≤ 90 at hhigh
    omega
  · change 97 ≤ c.toNat at hlow
    change c.toNat ≤ 122 at hhigh
    omega
  · change 48 ≤ c.toNat at hlow
    change c.toNat ≤ 57 at hhigh
    omega
  · decide
  · decide

theorem isLabelRest_of_isLabel {label : String} (h : Token.isLabel label = true) :
    label.toList ≠ [] ∧ ∀ c ∈ label.toList, Token.isLabelRest c = true := by
  unfold Token.isLabel at h
  cases hcs : label.toList with
  | nil => simp [hcs] at h
  | cons c cs =>
    simp only [hcs, Bool.and_eq_true, List.all_eq_true] at h
    refine ⟨List.cons_ne_nil _ _, ?_⟩
    intro d hd
    rcases List.mem_cons.mp hd with rfl | hd
    · have hstart := h.1
      simp only [Token.isLabelStart, Token.isLabelRest, Char.isAlphanum, Bool.or_eq_true] at hstart ⊢
      tauto
    · exact h.2 d hd

/-- Characters of an identifier and number signs make up an operand. -/
theorem isOperand_of_forall {cs : List Char} (hne : cs ≠ [])
    (h : ∀ c ∈ cs, Token.isLabelRest c = true ∨ c = '#') : IsOperand cs := by
  refine ⟨⟨hne, ?_⟩, ?_, ?_⟩
  · intro c hc
    rcases h c hc with hrest | rfl
    · have hrange := toNat_of_isLabelRest hrest
      simp [isBlank]
      omega
    · decide
  · intro hc
    exact absurd (h _ hc) (by decide)
  · intro hc
    exact absurd (h _ hc) (by decide)

/-- An identifier holds no blank and nothing that separates operands. -/
theorem isOperand_of_isLabel {label : String} (h : Token.isLabel label = true) :
    IsOperand label.toList := by
  obtain ⟨hne, hchars⟩ := isLabelRest_of_isLabel h
  exact isOperand_of_forall hne fun c hc => .inl (hchars c hc)

theorem Spells.labelled {line name label : String} {operands : List String}
    (h : Spells line none name operands) (hlabel : Token.isLabel label = true) :
    Spells (label ++ line) (some label) name operands := by
  obtain ⟨-, hname, gap, rest, comment, hgap, hne, hrest, hcomment, hline⟩ := h
  refine ⟨?_, hname, gap, rest, comment, hgap, hne, hrest, hcomment, ?_⟩
  · rintro l ⟨⟩
    have hop := isOperand_of_isLabel hlabel
    exact ⟨hop.1, hop.2.2⟩
  · rw [String.toList_append, hline]
    simp only [Option.map_none, Option.map_some, Option.getD_none, Option.getD_some,
      List.nil_append, List.append_assoc]

theorem SpellsOperands.isOperand {ops : List (List Char)} {text : List Char}
    (h : SpellsOperands ops text) : ∀ op ∈ ops, IsOperand op := by
  induction h with
  | one _ hop _ =>
    intro op hmem
    rw [List.mem_singleton.mp hmem]
    exact hop
  | cons _ hop _ _ ih =>
    intro op hmem
    rcases List.mem_cons.mp hmem with rfl | hmem
    · exact hop
    · exact ih op hmem

theorem trim_piece {pre op post : List Char} (hpre : IsGap pre) (hop : IsOperand op)
    (hpost : IsGap post) : trim (pre ++ op ++ post) = op := by
  rw [hpost.append_trim, hpre.trim_append, trim_of_isWord hop.1]

theorem SpellsOperands.splitOn {ops : List (List Char)} {text : List Char}
    (h : SpellsOperands ops text) : (text.splitOn ',').map trim = ops := by
  induction h with
  | one hpre hop hpost =>
    rw [List.splitOn_eq_singleton (hop.not_mem_comma hpre hpost), List.map_singleton,
      trim_piece hpre hop hpost]
  | cons hpre hop hpost _ ih =>
    rw [List.splitOn_append_cons_self_of_not_mem (hop.not_mem_comma hpre hpost), List.map_cons,
      trim_piece hpre hop hpost, ih]

theorem SpellsOperands.trimStart {ops : List (List Char)} {text : List Char}
    (h : SpellsOperands ops text) : SpellsOperands ops (Text.trimStart text) := by
  cases h with
  | @one pre op post hpre hop hpost =>
    rw [List.append_assoc, hpre.trimStart_append, trimStart_of_isWord hop.1]
    exact .one isGap_nil hop hpost
  | @cons pre op post rest ops hpre hop hpost h =>
    rw [List.append_assoc, List.append_assoc, hpre.trimStart_append, trimStart_of_isWord hop.1,
      ← List.append_assoc]
    exact .cons isGap_nil hop hpost h

theorem SpellsOperands.trimEnd {ops : List (List Char)} {text : List Char}
    (h : SpellsOperands ops text) : SpellsOperands ops (Text.trimEnd text) := by
  induction h with
  | @one pre op post hpre hop hpost =>
    rw [trimEnd_append_of_isWord hop.1, hpost.trimEnd_eq_nil]
    exact .one hpre hop isGap_nil
  | @cons pre op post rest ops hpre hop hpost _ ih =>
    have hcomma : IsWord [','] := by
      refine ⟨List.cons_ne_nil _ _, ?_⟩
      intro c hc
      rw [List.mem_singleton.mp hc]
      decide
    rw [List.append_cons, trimEnd_append_of_isWord hcomma, ← List.append_cons]
    exact .cons hpre hop hpost ih

theorem SpellsOperands.prepend {ops : List (List Char)} {text gap : List Char}
    (h : SpellsOperands ops text) (hgap : IsGap gap) : SpellsOperands ops (gap ++ text) := by
  cases h with
  | one hpre hop hpost =>
    simp only [← List.append_assoc]
    exact .one (isGap_append.mpr ⟨hgap, hpre⟩) hop hpost
  | cons hpre hop hpost h =>
    simp only [← List.append_assoc]
    exact .cons (isGap_append.mpr ⟨hgap, hpre⟩) hop hpost h

theorem SpellsOperands.extend {ops : List (List Char)} {text gap : List Char}
    (h : SpellsOperands ops text) (hgap : IsGap gap) : SpellsOperands ops (text ++ gap) := by
  induction h with
  | one hpre hop hpost =>
    rw [List.append_assoc]
    exact .one hpre hop (isGap_append.mpr ⟨hpost, hgap⟩)
  | cons hpre hop hpost _ ih =>
    rw [List.append_assoc, List.cons_append]
    exact .cons hpre hop hpost ih

/-- Pieces that are operands but for blanks around them spell those operands. -/
theorem spellsOperands_intercalate {pieces : List (List Char)} (hne : pieces ≠ [])
    (h : ∀ piece ∈ pieces, IsOperand (trim piece)) :
    SpellsOperands (pieces.map trim) ([','].intercalate pieces) := by
  induction pieces with
  | nil => exact absurd rfl hne
  | cons piece pieces ih =>
    obtain ⟨pre, post, hpre, hpost, hpiece⟩ := exists_gap_trim piece
    have hop := h piece List.mem_cons_self
    cases pieces with
    | nil =>
      rw [List.intercalate_singleton, List.map_singleton]
      have hone := SpellsOperands.one hpre hop hpost
      rwa [← hpiece] at hone
    | cons next pieces =>
      have htail := ih (List.cons_ne_nil _ _) fun p hp => h p (List.mem_cons_of_mem _ hp)
      have hcons := SpellsOperands.cons hpre hop hpost htail
      rw [← hpiece] at hcons
      rw [List.intercalate_cons_cons, List.map_cons]
      simpa using hcons

end SourceLine
end Thumb
