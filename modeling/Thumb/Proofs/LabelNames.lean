import Thumb.Proofs.ProgramCounter
import Thumb.Proofs.RegisterNames
import Thumb.Proofs.Rendering

/-! Which texts are labels. A label is told in two places, in the first column of a line and among the
operands of a branch, and by two readers; they accept the same texts, the identifiers that are no
register names, so that whatever can be defined can be branched to. -/
namespace Thumb

/-- The text is an identifier, and it is not how a register is written: neither a register name in
letters, in either case, nor `R` and a numeral of any size. -/
structure IsLabelName (t : String) : Prop where
  identifier : ∃ c rest, t.toList = c :: rest ∧
    ('A' ≤ c ∧ c ≤ 'Z' ∨ 'a' ≤ c ∧ c ≤ 'z' ∨ c = '_' ∨ c = '.') ∧
    ∀ d ∈ rest, 'A' ≤ d ∧ d ≤ 'Z' ∨ 'a' ≤ d ∧ d ≤ 'z' ∨ '0' ≤ d ∧ d ≤ '9' ∨ d = '_' ∨ d = '.'
  not_name : Text.upper t ∉ registerNames
  not_number : ∀ n, ¬Text.IsNumbered t.toList n

namespace Token

theorem isLabelStart_iff {c : Char} : isLabelStart c = true ↔
    'A' ≤ c ∧ c ≤ 'Z' ∨ 'a' ≤ c ∧ c ≤ 'z' ∨ c = '_' ∨ c = '.' := by
  unfold isLabelStart Char.isAlpha Char.isUpper Char.isLower
  simp only [Bool.or_eq_true, Bool.and_eq_true, decide_eq_true_eq, beq_iff_eq, or_assoc]
  exact Iff.rfl

theorem isLabelRest_iff {c : Char} : isLabelRest c = true ↔
    'A' ≤ c ∧ c ≤ 'Z' ∨ 'a' ≤ c ∧ c ≤ 'z' ∨ '0' ≤ c ∧ c ≤ '9' ∨ c = '_' ∨ c = '.' := by
  unfold isLabelRest Char.isAlphanum Char.isAlpha Char.isUpper Char.isLower Char.isDigit
  simp only [Bool.or_eq_true, Bool.and_eq_true, decide_eq_true_eq, beq_iff_eq, or_assoc]
  exact Iff.rfl

theorem isLabel_iff {t : String} : isLabel t = true ↔ ∃ c rest, t.toList = c :: rest ∧
    isLabelStart c = true ∧ ∀ d ∈ rest, isLabelRest d = true := by
  unfold isLabel
  cases t.toList with
  | nil => simp
  | cons c rest =>
    rw [Bool.and_eq_true, List.all_eq_true]
    constructor
    · intro h
      exact ⟨c, rest, rfl, h⟩
    · rintro ⟨c', rest', heq, h⟩
      cases heq
      exact h

end Token

theorem isLabelName_iff {t : String} :
    IsLabelName t ↔ Token.isLabel t = true ∧ Token.isRegister t = false := by
  have hidentifier : (∃ c rest, t.toList = c :: rest ∧
      ('A' ≤ c ∧ c ≤ 'Z' ∨ 'a' ≤ c ∧ c ≤ 'z' ∨ c = '_' ∨ c = '.') ∧
      ∀ d ∈ rest, 'A' ≤ d ∧ d ≤ 'Z' ∨ 'a' ≤ d ∧ d ≤ 'z' ∨ '0' ≤ d ∧ d ≤ '9' ∨ d = '_' ∨ d = '.') ↔
      Token.isLabel t = true := by
    simp only [Token.isLabel_iff, Token.isLabelStart_iff, Token.isLabelRest_iff]
  have hregister (h : Token.isLabel t = true) : Token.isRegister t = false ↔
      Text.upper t ∉ registerNames ∧ ∀ n, ¬Text.IsNumbered t.toList n := by
    have htrim : Text.trimmed t = t := by
      rw [Text.trimmed, Text.trim_of_isWord (SourceLine.isOperand_of_isLabel h).1,
        String.ofList_toList]
    rw [← Bool.not_eq_true, Token.isRegister_iff, htrim, not_or, not_exists]
  constructor
  · rintro ⟨hlabel, hname, hnumber⟩
    have hlabel := hidentifier.mp hlabel
    exact ⟨hlabel, (hregister hlabel).mpr ⟨hname, hnumber⟩⟩
  · rintro ⟨hlabel, hreg⟩
    obtain ⟨hname, hnumber⟩ := (hregister hlabel).mp hreg
    exact ⟨hidentifier.mpr hlabel, hname, hnumber⟩

theorem Mnemonic.isLabelName_name (m : Mnemonic) : IsLabelName m.name := by
  refine isLabelName_iff.mpr ⟨m.isLabel_name, ?_⟩
  cases m with
  | b cond => cases cond <;> decide +kernel
  | _ => decide +kernel

/-- What names a location of the machine is no label. -/
theorem not_isLabelName_of_ofName {s : Shape} {t : String} {l : Location s}
    (h : Location.ofName s t = .ok l) : ¬IsLabelName t := by
  intro hlabel
  have hregister := (isLabelName_iff.mp hlabel).2
  rw [Location.isRegister_of_ofName h] at hregister
  cases hregister

theorem Token.isLabelRest_of_toUpper {c : Char} (h : isLabelRest c.toUpper = true) :
    isLabelRest c = true := by
  by_cases hlow : 'a' ≤ c ∧ c ≤ 'z'
  · exact isLabelRest_iff.mpr (.inr (.inl hlow))
  · have hsame : c.toUpper = c := by
      unfold Char.toUpper
      exact dif_neg hlow
    rwa [hsame] at h

/-- A text is made of the characters of identifiers if its capitals are. -/
theorem Text.isLabelRest_of_upper {t : String}
    (h : ∀ c ∈ (upper t).toList, Token.isLabelRest c = true) :
    ∀ c ∈ t.toList, Token.isLabelRest c = true := by
  intro c hc
  refine Token.isLabelRest_of_toUpper (h _ ?_)
  rw [toList_upper]
  exact List.mem_map_of_mem hc

theorem Condition.isLabelRest_of_ofSuffix? {suffix : String} {cond : Condition}
    (h : ofSuffix? suffix = some cond) : ∀ c ∈ suffix.toList, Token.isLabelRest c = true := by
  have table : ∀ p ∈ spellings, p.1.toList.all Token.isLabelRest = true := by decide +kernel
  obtain ⟨p, hp, -⟩ := Option.map_eq_some_iff.mp h
  obtain ⟨hname, hmem⟩ := Text.findNamed?_eq_some hp
  refine Text.isLabelRest_of_upper ?_
  rw [← hname]
  exact List.all_eq_true.mp (table p hmem)

/-- However the name of an instruction is spelled, it is a word. -/
theorem Mnemonic.isOperand_of_ofName? {name : String} {m : Mnemonic} (h : ofName? name = some m) :
    SourceLine.IsOperand name.toList := by
  have hne : name.toList ≠ [] := by
    intro hnil
    have hnone : ofName? "" = none := by decide +kernel
    rw [String.toList_eq_nil_iff.mp hnil, hnone] at h
    cases h
  refine SourceLine.isOperand_of_forall hne fun c hc => .inl (Text.isLabelRest_of_upper ?_ c hc)
  obtain hplain | ⟨-, hbranch⟩ := (Option.orElse_eq_some _ _ _).mp h
  · obtain ⟨hname, -⟩ := Text.findNamed?_eq_some hplain
    rw [← hname]
    exact (SourceLine.isLabelRest_of_isLabel m.isLabel_name).2
  · unfold ofBranchName? at hbranch
    split at hbranch
    · next suffix hsuffix =>
      obtain ⟨cond, hcond, -⟩ := Option.map_eq_some_iff.mp hbranch
      have hrest := Condition.isLabelRest_of_ofSuffix? hcond
      rw [String.toList_ofList] at hrest
      rw [hsuffix]
      exact List.forall_mem_cons.mpr ⟨by decide, hrest⟩
    · cases hbranch

theorem Mnemonic.arity_eq_of_takesLabel {m : Mnemonic} (h : m.takesLabel = true) : m.arity = 1 := by
  cases m with
  | b | bl => rfl
  | _ => cases h

/-- A single operand is the text without the blanks around it. -/
theorem SourceLine.SpellsOperands.trim_eq {op text : List Char} (h : SpellsOperands [op] text) :
    Text.trim text = op := by
  cases h with
  | one hpre hop hpost => exact trim_piece hpre hop hpost
  | cons _ _ _ hnone => cases hnone

/-- A word that is the only operand is read as it is, unless there is a comma in it. -/
theorem SourceLine.operandTexts_one_eq_ok_iff {t : String} {texts : List String}
    (ht : Text.IsWord t.toList ∧ ';' ∉ t.toList) :
    operandTexts 1 t = .ok texts ↔ ',' ∉ t.toList ∧ texts = [t] := by
  rw [operandTexts_eq_ok_iff_spells ht.2]
  constructor
  · rintro ⟨hlength, ⟨-, rfl⟩ | hspells⟩
    · cases hlength
    · obtain ⟨text, rfl⟩ := List.length_eq_one_iff.mp hlength
      obtain rfl : t = text := by
        have hsame := hspells.trim_eq
        rw [Text.trim_of_isWord ht.1] at hsame
        exact String.toList_injective hsame
      exact ⟨(hspells.isOperand _ (List.mem_singleton.mpr rfl)).2.1, rfl⟩
  · rintro ⟨hcomma, rfl⟩
    have hone := SpellsOperands.one Text.isGap_nil ⟨ht.1, hcomma, ht.2⟩ Text.isGap_nil
    rw [List.nil_append, List.append_nil] at hone
    exact ⟨rfl, .inr hone⟩

theorem Instruction.hasForm_of_label? {i : Instruction} {t : String} (h : i.label? = some t) :
    i.HasForm [.label t] := by
  cases i with
  | branch cond label =>
    obtain rfl := Option.some.inj h
    exact .branch
  | branchLink label =>
    obtain rfl := Option.some.inj h
    exact .branchLink
  | _ => cases h

theorem Instruction.exists_of_takesLabel {m : Mnemonic} (h : m.takesLabel = true) (t : String) :
    ∃ i : Instruction, i.mnemonic = m ∧ i.label? = some t := by
  cases m with
  | b cond => exact ⟨.branch cond t, rfl, rfl⟩
  | bl => exact ⟨.branchLink t, rfl, rfl⟩
  | _ => cases h

namespace Entry

variable {count : ℕ} {t name : String} {b : Mnemonic} {e : Entry}

/-- A line with a text before an instruction makes an entry exactly if the text is a label. -/
theorem parse_definition_eq_ok_iff (ht : Text.IsWord t.toList ∧ ';' ∉ t.toList) :
    parse count (t ++ " NOP") = .ok e ↔
      IsLabelName t ∧ e = ⟨t ++ " NOP", some t, .nop, .nop⟩ := by
  have hname := SourceLine.isOperand_of_isLabel Mnemonic.nop.isLabel_name
  have hspells : SourceLine.Spells (t ++ " NOP") (some t) "NOP" [] := by
    refine ⟨?_, ⟨hname.1, hname.2.2⟩, [' '], [], [], Text.isGap_space, List.cons_ne_nil _ _,
      .none Text.isGap_nil, .inl rfl, ?_⟩
    · rintro l ⟨⟩
      exact ht
    · simp
  have haccepted (h : IsLabelName t) :
      parse count (t ++ " NOP") = .ok ⟨t ++ " NOP", some t, .nop, .nop⟩ := by
    have hlabel : ∀ l ∈ some t, Token.isLabel l = true ∧ Token.isRegister l = false := by
      rintro l ⟨⟩
      exact isLabelName_iff.mp h
    obtain ⟨text, hwritten⟩ := SourceLine.exists_writtenAs_of_spells hspells hlabel
    obtain ⟨hparts, htexts⟩ := SourceLine.writtenAs_iff.mpr ⟨hwritten, rfl⟩
    exact parse_eq_ok_iff.mpr
      ⟨rfl, _, _, _, hparts, rfl, Mnemonic.nop.ofName?_name, htexts, .nil, rfl⟩
  constructor
  · intro h
    obtain ⟨-, parts, texts, tokens, hparts, -, -, htexts, -, -⟩ := parse_eq_ok_iff.mp h
    obtain ⟨hlabel, -, -⟩ := SourceLine.parts_of_spells hspells hparts htexts
    have hlabelName := isLabelName_iff.mpr (SourceLine.isLabel_of_parse hparts hlabel)
    exact ⟨hlabelName, Except.ok.inj (h.symm.trans (haccepted hlabelName))⟩
  · rintro ⟨h, rfl⟩
    exact haccepted h

/-- A line with a text after the name of a branch makes an entry exactly if the text is a label. -/
theorem parse_use_eq_ok_iff (hcount : 16 ≤ count) (ht : Text.IsWord t.toList ∧ ';' ∉ t.toList)
    (hname : Mnemonic.ofName? name = some b) (hb : b.takesLabel = true) :
    parse count (" " ++ name ++ " " ++ t) = .ok e ↔
      IsLabelName t ∧ e.source = " " ++ name ++ " " ++ t ∧ e.label = none ∧ e.mnemonic = b ∧
        e.instruction.mnemonic = b ∧ e.instruction.label? = some t := by
  have hword := Mnemonic.isOperand_of_ofName? hname
  have hparts : SourceLine.parse (" " ++ name ++ " " ++ t) = .ok ⟨none, name, t⟩ := by
    refine SourceLine.parse_of_composes ⟨nofun, ⟨hword.1, hword.2.2⟩,
      ⟨Text.trim_of_isWord ht.1, ht.2⟩, [' '], [' '], [], [], Text.isGap_space,
      List.cons_ne_nil _ _, Text.isGap_space, .inr (List.cons_ne_nil _ _), Text.isGap_nil, .inl rfl,
      ?_⟩
    simp
  constructor
  · intro h
    obtain ⟨hsource, parts, texts, tokens, hread, hlabel, hm, htexts, htokens, hi⟩ :=
      parse_eq_ok_iff.mp h
    cases hparts.symm.trans hread
    obtain rfl := Option.some.inj (hname.symm.trans hm)
    rw [Mnemonic.arity_eq_of_takesLabel hb] at htexts
    obtain ⟨-, rfl⟩ := (SourceLine.operandTexts_one_eq_ok_iff ht).mp htexts
    have hclassified : ∀ u ∈ tokens, u.IsClassified :=
      fun u hu => ⟨_, exists_of_mem_results htokens hu⟩
    obtain ⟨hmnemonic, ws, hsaid, hform⟩ :=
      (Instruction.decode_eq_ok_iff hcount hclassified).mp hi
    -- the instruction names a label, which only the text after the name can have said
    obtain ⟨own, hown⟩ : ∃ own, e.instruction.label? = some own := by
      rw [← Option.isSome_iff_exists, Instruction.isSome_label?_eq, hmnemonic, hb]
    obtain ⟨u, hu, husays⟩ := exists_of_mem_right hsaid (hform.label_mem_iff.mpr hown)
    obtain ⟨hkind, rfl⟩ := Token.says_label_iff.mp husays
    obtain ⟨text, htext, hclass⟩ := exists_of_mem_right htokens hu
    obtain rfl := List.mem_singleton.mp htext
    have htoken := Token.text_of_classify hclass
    have hreaders := Token.isLabel_of_classify hclass hkind
    rw [htoken] at hreaders hown
    exact ⟨isLabelName_iff.mpr hreaders, hsource, hlabel.symm, rfl, hmnemonic, hown⟩
  · obtain ⟨source, label, m, i⟩ := e
    rintro ⟨hlabel, rfl, rfl, rfl, hi, hown⟩
    dsimp only at hi hown
    have hreaders := isLabelName_iff.mp hlabel
    have htexts := (SourceLine.operandTexts_one_eq_ok_iff ht).mpr
      ⟨(SourceLine.isOperand_of_isLabel hreaders.1).2.1, rfl⟩
    rw [← Mnemonic.arity_eq_of_takesLabel hb] at htexts
    have hclass := Written.classify_text (w := .label t) ⟨hb, hreaders⟩
    have hclassified : ∀ u ∈ [(Written.label t).token], u.IsClassified := by
      intro u hu
      obtain rfl := List.mem_singleton.mp hu
      exact ⟨_, _, hclass⟩
    exact parse_eq_ok_iff.mpr ⟨rfl, _, _, _, hparts, rfl, hname, htexts, .cons hclass .nil,
      (Instruction.decode_eq_ok_iff hcount hclassified).mpr ⟨hi, [.label t],
        .cons (Token.says_label_iff.mpr ⟨rfl, rfl⟩) .nil, Instruction.hasForm_of_label? hown⟩⟩

end Entry

theorem Instruction.takenLabel?_of_holds {i : Instruction} {b : Mnemonic} {t : String} {f : Flags}
    (hi : i.mnemonic = b) (hlabel : i.label? = some t)
    (hholds : ∀ cond, b = .b cond → cond.holds f = true) : i.takenLabel? f = some t := by
  cases i with
  | branch cond label => exact (if_pos (hholds cond hi.symm)).trans hlabel
  | branchLink label => exact hlabel
  | _ => cases hlabel

namespace Machine

variable {s : Shape} {m : Machine s} {t name : String} {b : Mnemonic}

/-- The entry at `target` bears the label and the one at `source` is a branch that goes there: on any
machine with this program on which the condition of the branch holds, executing it puts `target` into
`PC`, and so does the step that comes to it. -/
structure LeadsTo (m : Machine s) (b : Mnemonic) (t : String) (source target : ℕ) : Prop where
  bears : (m.program.get? target).bind Entry.label = some t
  goes : ∃ e, m.program.get? source = some e ∧ e.mnemonic = b ∧
    ∀ m₁ : Machine s, m₁.program = m.program →
      (∀ cond, b = .b cond → cond.holds m₁.registers.flags = true) →
      (∃ m₂, m₁.execute e.instruction = .ok m₂ ∧ m₂.pc = target) ∧
      (m₁.pc = source → ∃ m₂, m₁.step = .ok (some m₂) ∧ m₂.pc = target)

/-- A branch to a label in the table leads to the entry that bears it. -/
theorem leadsTo_of_index? {e : Entry} {source target : ℕ} (he : m.program.get? source = some e)
    (hm : e.mnemonic = b) (hi : e.instruction.mnemonic = b) (hlabel : e.instruction.label? = some t)
    (hbears : (m.program.get? target).bind Entry.label = some t)
    (hindex : m.program.index? t = some target) (hfits : target < 2 ^ s.bits) :
    m.LeadsTo b t source target := by
  refine ⟨hbears, e, he, hm, ?_⟩
  intro m₁ hprogram hholds
  have htarget : m₁.target e.instruction = .ok target := by
    simp only [Machine.target, hlabel, hprogram, hindex]
  have htaken := Instruction.takenLabel?_of_holds hi hlabel hholds
  have hpc : ((m₁.registers.perform target e.instruction).get .pc).toNat = target := by
    rw [RegisterFile.get_pc_perform, RegisterFile.target?_effect_of_taken _ _ htaken]
    exact (BitVec.toNat_ofNat _ _).trans (Nat.mod_eq_of_lt hfits)
  constructor
  · rw [execute, htarget]
    exact ⟨_, rfl, hpc⟩
  · intro hsource
    have hfetch : m₁.program.get? m₁.pc = some e := by rw [hsource, hprogram, he]
    exact ⟨_, step_eq_of_target hfetch htarget, hpc⟩

/-- A line is accepted by a machine without a program if it makes an entry. -/
theorem exists_assemble_iff {line : String} (hm : m.program = Program.empty) :
    (∃ m₁, m.assemble line = .ok m₁) ↔ ∃ e, Entry.parse s.registerCount line = .ok e := by
  constructor
  · rintro ⟨m₁, h⟩
    obtain ⟨e, he, -⟩ := append_of_assemble h
    exact ⟨e, he⟩
  · rintro ⟨e, he⟩
    refine ⟨_, assemble_of_parse he fun label _ => ?_⟩
    rw [hm, Program.index?_empty]

/-- Two lines that make entries are both accepted if one of them has no label. -/
theorem exists_assemble_pair {line line' : String} {e e' : Entry} (hm : m.program = Program.empty)
    (he : Entry.parse s.registerCount line = .ok e)
    (he' : Entry.parse s.registerCount line' = .ok e') (hone : e.label = none ∨ e'.label = none) :
    ∃ m₁ m₂, m.assemble line = .ok m₁ ∧ m₁.assemble line' = .ok m₂ ∧
      m₂.program = (Program.empty.push e).push e' := by
  refine ⟨_, _, assemble_of_parse he ?_, assemble_of_parse he' ?_, by rw [hm]⟩
  · intro label _
    rw [hm, Program.index?_empty]
  · intro label hlabel
    have hother : e.label ≠ some label := by
      intro hsame
      rcases hone with hnone | hnone
      · rw [hnone] at hsame
        cases hsame
      · rw [hnone] at hlabel
        cases hlabel
    change (m.program.push e).index? label = none
    rw [Program.index?_push, if_neg hother, hm, Program.index?_empty]

/-- A branch to a label leads to the entry that bears it, whichever of the two lines comes first. -/
theorem exists_leadsTo (hm : m.program = Program.empty)
    (ht : Text.IsWord t.toList ∧ ';' ∉ t.toList) (hname : Mnemonic.ofName? name = some b)
    (hb : b.takesLabel = true) (hlabel : IsLabelName t) :
    (∃ m₁ m₂, m.assemble (t ++ " NOP") = .ok m₁ ∧
      m₁.assemble (" " ++ name ++ " " ++ t) = .ok m₂ ∧ m₂.LeadsTo b t 1 0) ∧
    ∃ m₁ m₂, m.assemble (" " ++ name ++ " " ++ t) = .ok m₁ ∧
      m₁.assemble (t ++ " NOP") = .ok m₂ ∧ m₂.LeadsTo b t 0 1 := by
  obtain ⟨i, hi, hown⟩ := Instruction.exists_of_takesLabel hb t
  have hdefinition : Entry.parse s.registerCount (t ++ " NOP") =
      .ok ⟨t ++ " NOP", some t, .nop, .nop⟩ :=
    (Entry.parse_definition_eq_ok_iff ht).mpr ⟨hlabel, rfl⟩
  have huse : Entry.parse s.registerCount (" " ++ name ++ " " ++ t) =
      .ok ⟨" " ++ name ++ " " ++ t, none, b, i⟩ :=
    (Entry.parse_use_eq_ok_iff s.sixteen_le ht hname hb).mpr ⟨hlabel, rfl, rfl, rfl, hi, hown⟩
  have hbits := s.sixteen_le_bits
  constructor
  · obtain ⟨m₁, m₂, h₁, h₂, hp⟩ := exists_assemble_pair hm hdefinition huse (.inr rfl)
    refine ⟨m₁, m₂, h₁, h₂, leadsTo_of_index? (by rw [hp]; rfl) rfl hi hown ?_ ?_ ?_⟩
    · rw [hp]
      rfl
    · rw [hp, Program.index?_push, if_neg (Option.some_ne_none t).symm, Program.index?_push,
        if_pos rfl, Program.size_empty]
    · exact Nat.two_pow_pos _
  · obtain ⟨m₁, m₂, h₁, h₂, hp⟩ := exists_assemble_pair hm huse hdefinition (.inl rfl)
    refine ⟨m₁, m₂, h₁, h₂, leadsTo_of_index? (by rw [hp]; rfl) rfl hi hown ?_ ?_ ?_⟩
    · rw [hp]
      rfl
    · rw [hp, Program.index?_push, if_pos rfl, Program.size_push, Program.size_empty]
    · exact Nat.one_lt_two_pow (by omega)

/-- Definitions and uses of labels agree. On a machine without a program a word is accepted as the
label of an instruction exactly if it is accepted as the operand of a branch, however the name of the
branch is spelled, and then the branch leads to the instruction, whichever of the two lines comes
first. Refused are the names of locations and `R` with a numeral, whatever its number; among the
labels are the names of instructions. -/
theorem label_definitions_and_uses_agree (hm : m.program = Program.empty) :
    (∀ (t name : String) (b : Mnemonic), Text.IsWord t.toList ∧ ';' ∉ t.toList →
      Mnemonic.ofName? name = some b → b.takesLabel = true →
      ((∃ m₁, m.assemble (t ++ " NOP") = .ok m₁) ↔ IsLabelName t) ∧
      ((∃ m₁, m.assemble (" " ++ name ++ " " ++ t) = .ok m₁) ↔ IsLabelName t) ∧
      (IsLabelName t →
        (∃ m₁ m₂, m.assemble (t ++ " NOP") = .ok m₁ ∧
          m₁.assemble (" " ++ name ++ " " ++ t) = .ok m₂ ∧ m₂.LeadsTo b t 1 0) ∧
        ∃ m₁ m₂, m.assemble (" " ++ name ++ " " ++ t) = .ok m₁ ∧
          m₁.assemble (t ++ " NOP") = .ok m₂ ∧ m₂.LeadsTo b t 0 1)) ∧
    (∀ t, (∃ l, Location.ofName s t = .ok l) ∨ (∃ n, Text.IsNumbered t.toList n) →
      ¬IsLabelName t) ∧
    ∀ b : Mnemonic, IsLabelName b.name := by
  refine ⟨?_, ?_, Mnemonic.isLabelName_name⟩
  · intro t name b ht hname hb
    refine ⟨?_, ?_, exists_leadsTo hm ht hname hb⟩
    · rw [exists_assemble_iff hm]
      simp only [Entry.parse_definition_eq_ok_iff ht, exists_and_left, exists_eq, and_true]
    · obtain ⟨i, hi, hown⟩ := Instruction.exists_of_takesLabel hb t
      rw [exists_assemble_iff hm]
      simp only [Entry.parse_use_eq_ok_iff s.sixteen_le ht hname hb, exists_and_left]
      exact and_iff_left ⟨⟨_, none, b, i⟩, rfl, rfl, rfl, hi, hown⟩
  · rintro t (⟨l, hl⟩ | ⟨n, hn⟩)
    · exact not_isLabelName_of_ofName hl
    · exact fun h => h.not_number n hn

/-- A text that starts like a numbered register is a label, also for a branch under a synonym in small
letters; a register with a number beyond any word is none. -/
theorem label_definitions_and_uses_agree_almostRegister :
    (new (.architectural .w16)).program = Program.empty ∧
    (∃ m₁ m₂, (new (.architectural .w16)).assemble "R12a NOP" = .ok m₁ ∧
      m₁.assemble " bhs R12a" = .ok m₂ ∧ m₂.LeadsTo (.b .cs) "R12a" 1 0) ∧
    (∀ m₁, (new (.architectural .w16)).assemble "r99999999999999999999 NOP" ≠ .ok m₁) ∧
    (∀ m₁, (new (.architectural .w16)).assemble " BL r99999999999999999999" ≠ .ok m₁) := by
  obtain ⟨hagree, -, -⟩ := label_definitions_and_uses_agree (m := new (.architectural .w16)) rfl
  have hword (t : String) (h : Token.isLabel t = true) :
      Text.IsWord t.toList ∧ ';' ∉ t.toList :=
    ⟨(SourceLine.isOperand_of_isLabel h).1, (SourceLine.isOperand_of_isLabel h).2.2⟩
  have hlabel : IsLabelName "R12a" := isLabelName_iff.mpr (by decide +kernel)
  have hnone : ¬IsLabelName "r99999999999999999999" := by
    rw [isLabelName_iff]
    decide +kernel
  obtain ⟨-, -, hleads⟩ := hagree "R12a" "bhs" (.b .cs) (hword _ (by decide +kernel))
    (by decide +kernel) rfl
  obtain ⟨hdefinition, huse, -⟩ := hagree "r99999999999999999999" "BL" .bl
    (hword _ (by decide +kernel)) (by decide +kernel) rfl
  exact ⟨rfl, (hleads hlabel).1, fun m₁ h => hnone (hdefinition.mp ⟨m₁, h⟩),
    fun m₁ h => hnone (huse.mp ⟨m₁, h⟩)⟩

end Machine
end Thumb
