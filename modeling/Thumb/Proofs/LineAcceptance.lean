import Thumb.Proofs.LineCutting

/-! Which lines are read. A line is read with given parts and operands exactly when it is composed of
them, it is composed of no others, and what stands in its comment does not matter. -/
namespace Thumb
namespace SourceLine

open Text

/-- The line is composed of the parts, and the operands among them are the given texts. -/
structure WrittenAs (line : String) (parts : SourceLine) (texts : List String) : Prop where
  composes : parts.Composes line
  operands : texts = [] ∧ parts.operands = "" ∨
    SpellsOperands (texts.map String.toList) parts.operands.toList

theorem splitLabel_append {label : Option String} {rest : List Char}
    (hlabel : ∀ l ∈ label, Token.isLabel l = true ∧ Token.isRegister l = false)
    (hrest : StartsBlank rest) :
    splitLabel ((label.map String.toList).getD [] ++ rest) = .ok (label, rest) := by
  cases label with
  | none =>
    rw [Option.map_none, Option.getD_none, List.nil_append]
    simp [splitLabel, word_eq_nil hrest]
  | some l =>
    obtain ⟨hl, hregister⟩ := hlabel l rfl
    obtain ⟨hne, hword⟩ := (isOperand_of_isLabel hl).1
    obtain ⟨hcut, hafter⟩ := word_append hword hrest
    rw [Option.map_some, Option.getD_some]
    simp only [splitLabel, hcut, hafter, String.ofList_toList, if_neg hne, hl, hregister]
    rfl

theorem Composes.code_eq {line : String} {parts : SourceLine} (h : parts.Composes line) :
    ∃ lead rest, IsGap lead ∧ lead ≠ [] ∧ StartsBlank rest ∧ trim rest = parts.operands.toList ∧
      code line.toList =
        (parts.label.map String.toList).getD [] ++ (lead ++ (parts.mnemonic.toList ++ rest)) := by
  obtain ⟨hlabel, hname, ⟨htrim, hsemi⟩, lead, gap, post, comment, hlead, hne, hgap, hstart, hpost,
    hcomment, hline⟩ := h
  refine ⟨lead, Text.trimEnd (gap ++ parts.operands.toList ++ post), hlead, hne, ?_, ?_, ?_⟩
  · apply StartsBlank.trimEnd
    rcases hstart with hnone | hgapNe
    · rw [hnone, String.toList_empty, List.append_nil]
      exact (isGap_append.mpr ⟨hgap, hpost⟩).startsBlank
    · rw [List.append_assoc]
      exact hgap.startsBlank_append hgapNe _
  · rw [trim_trimEnd, hpost.append_trim, hgap.trim_append, htrim]
  · rw [hline]
    refine code_line ?_ hlead hname ?_ hcomment
    · intro l hl
      obtain ⟨label, hmem, rfl⟩ := Option.map_eq_some_iff.mp hl
      exact (isOperand_of_isLabel (hlabel label hmem).1).2.2
    · simp only [List.mem_append, not_or]
      exact ⟨⟨IsGap.not_mem hgap (by decide), hsemi⟩, IsGap.not_mem hpost (by decide)⟩

theorem parse_of_composes {line : String} {parts : SourceLine} (h : parts.Composes line) :
    parse line = .ok parts := by
  have hname := h.isWord_mnemonic.1
  obtain ⟨lead, rest, hlead, hne, hrest, hoperands, hcode⟩ := h.code_eq
  obtain ⟨hcut, hafter⟩ := word_append hname.2 hrest
  unfold parse
  dsimp only
  rw [hcode, splitLabel_append h.isLabel_label (hlead.startsBlank_append hne _)]
  change (if word (trimStart (lead ++ _)) = [] then _ else _) = _
  rw [hlead.trimStart_append, trimStart_of_isWord hname, hcut, hafter, if_neg hname.1, hoperands,
    String.ofList_toList, String.ofList_toList]

/-- Reading a line is finding the parts it is composed of. -/
theorem parse_eq_ok_iff {line : String} {parts : SourceLine} :
    parse line = .ok parts ↔ parts.Composes line := ⟨composes_of_parse, parse_of_composes⟩

/-- Among trimmed text there is a gap only where there is no text. -/
theorem Composes.isGap_operands_iff {line : String} {parts : SourceLine}
    (h : parts.Composes line) : IsGap parts.operands.toList ↔ parts.operands = "" := by
  constructor
  · intro hgap
    have hnone := hgap.trim_eq_nil
    rw [h.trim_operands.1] at hnone
    exact String.toList_eq_nil_iff.mp hnone
  · intro hnone
    rw [hnone]
    exact isGap_nil

/-- A line has the form of its grammar exactly when it is read, and its operands with it. -/
theorem writtenAs_iff {line : String} {parts : SourceLine} {texts : List String} {n : Nat} :
    parse line = .ok parts ∧ operandTexts n parts.operands = .ok texts ↔
      WrittenAs line parts texts ∧ texts.length = n := by
  rw [parse_eq_ok_iff]
  constructor
  · rintro ⟨hcomposes, hops⟩
    obtain ⟨hlength, hread⟩ := (operandTexts_eq_ok_iff_spells hcomposes.trim_operands.2).mp hops
    refine ⟨⟨hcomposes, ?_⟩, hlength⟩
    rwa [hcomposes.isGap_operands_iff, and_comm] at hread
  · rintro ⟨⟨hcomposes, hread⟩, hlength⟩
    refine ⟨hcomposes, (operandTexts_eq_ok_iff_spells hcomposes.trim_operands.2).mpr ⟨hlength, ?_⟩⟩
    rwa [hcomposes.isGap_operands_iff, and_comm]

/-- A line with operands between commas has its parts, and what follows the name is one of them. -/
theorem exists_writtenAs_of_spells {line name : String} {label : Option String}
    {operands : List String} (h : Spells line label name operands)
    (hlabel : ∀ l ∈ label, Token.isLabel l = true ∧ Token.isRegister l = false) :
    ∃ text, WrittenAs line ⟨label, name, text⟩ operands := by
  obtain ⟨-, hname, lead, rest, comment, hlead, hne, hrest, hcomment, hline⟩ := h
  obtain ⟨gap, post, hgap, hpost, hstart, hcut⟩ := hrest.startsBlank.exists_gap_trim
  refine ⟨String.ofList (trim rest), ⟨hlabel, hname, ⟨?_, ?_⟩, lead, gap, post, comment, hlead, hne,
    hgap, ?_, hpost, hcomment, ?_⟩, ?_⟩
  · rw [String.toList_ofList, trim_trim]
  · rw [String.toList_ofList]
    exact fun hc => hrest.not_mem_semicolon (mem_of_mem_trim hc)
  · refine hstart.imp_left ?_
    intro hnone
    rw [hnone, String.ofList_nil]
  · rw [String.toList_ofList, ← hcut]
    exact hline
  · cases hops : operands.map String.toList with
    | nil =>
      rw [hops] at hrest
      cases hrest with
      | none hgap => exact .inl ⟨List.map_eq_nil_iff.mp hops, by rw [hgap.trim_eq_nil]⟩
      | some _ h => exact absurd rfl h.ne_nil
    | cons op ops =>
      rw [hops] at hrest
      cases hrest with
      | some _ h =>
        rw [String.toList_ofList]
        exact .inr h.trimStart.trimEnd

/-- The parts of a line and its operands are found in one way only. -/
theorem WrittenAs.unique {line : String} {parts parts' : SourceLine} {texts texts' : List String}
    (h : WrittenAs line parts texts) (h' : WrittenAs line parts' texts') :
    parts = parts' ∧ texts = texts' := by
  have hparts := (parse_of_composes h.composes).symm.trans (parse_of_composes h'.composes)
  cases hparts
  refine ⟨rfl, ?_⟩
  rcases h.operands, h'.operands with ⟨⟨hnone, htext⟩ | hops, ⟨hnone', htext'⟩ | hops'⟩
  · rw [hnone, hnone']
  · rw [htext] at hops'
    exact absurd isGap_nil hops'.not_isGap
  · rw [htext'] at hops
    exact absurd isGap_nil hops.not_isGap
  · have heq := hops.pieces_eq.symm.trans hops'.pieces_eq
    exact List.map_injective_iff.mpr (fun _ _ => String.toList_injective) heq

/-- A comment does not change what is read, nor the error. -/
theorem parse_append_comment (body comment : String) :
    parse (body ++ ";" ++ comment) = parse body := by
  have hcode : code (body ++ ";" ++ comment).toList = code body.toList := by
    simp only [String.toList_append, List.append_assoc]
    exact code_append_comment _ _
  unfold parse
  rw [hcode]

/-- A line is read with given parts and operands, as many as asked for, exactly when it is written as
these: a label that is an identifier and no register in the first column or none, blanks, a name,
operands between commas, and a comment. It is written so in one way only, and what its comment says
changes neither the parts nor the error. -/
theorem read_iff_written :
    (∀ (line : String) (n : Nat) (parts : SourceLine) (texts : List String),
      parse line = .ok parts ∧ operandTexts n parts.operands = .ok texts ↔
        WrittenAs line parts texts ∧ texts.length = n) ∧
    (∀ (line : String) (parts parts' : SourceLine) (texts texts' : List String),
      WrittenAs line parts texts → WrittenAs line parts' texts' →
        parts = parts' ∧ texts = texts') ∧
    ∀ body comment : String, parse (body ++ ";" ++ comment) = parse body :=
  ⟨fun _ _ _ _ => writtenAs_iff, fun _ _ _ _ _ h h' => h.unique h', parse_append_comment⟩

/-- A labelled line with a tab, an em space and two semicolons in it is read, and it cannot be written
with two operands. -/
theorem read_iff_written_spaced :
    WrittenAs "loop\tADDS\u2003R1 , R1,#1 ;a;b" ⟨some "loop", "ADDS", "R1 , R1,#1"⟩
      ["R1", "R1", "#1"] ∧
    ¬WrittenAs "loop\tADDS\u2003R1 , R1,#1 ;a;b" ⟨some "loop", "ADDS", "R1 , R1,#1"⟩
      ["R1 , R1", "#1"] ∧
    (parse ("loop\tADDS\u2003R1 , R1,#1 ;a;b" ++ ";" ++ "c")).toOption =
      some ⟨some "loop", "ADDS", "R1 , R1,#1"⟩ := by
  have hparts : parse "loop\tADDS\u2003R1 , R1,#1 ;a;b" =
      .ok ⟨some "loop", "ADDS", "R1 , R1,#1"⟩ := by decide +kernel
  have htexts : operandTexts 3 "R1 , R1,#1" = .ok ["R1", "R1", "#1"] := by decide +kernel
  have hwritten := ((read_iff_written.1 _ _ _ _).mp ⟨hparts, htexts⟩).1
  refine ⟨hwritten, ?_, ?_⟩
  · intro h
    exact absurd (read_iff_written.2.1 _ _ _ _ _ hwritten h).2 (by decide)
  · rw [read_iff_written.2.2, hparts]
    rfl

end SourceLine
end Thumb
