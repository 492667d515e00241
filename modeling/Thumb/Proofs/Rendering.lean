import Thumb.Proofs.DecodeTable
import Thumb.Proofs.LineAcceptance
import Thumb.Proofs.ProgramLabels

/-! Instructions as text. An instruction of the operand table is rendered as a line in one spelling,
and assembling that line gives the instruction back; so rendering what a line was read as and reading
it again changes nothing. -/
namespace Thumb

namespace Text

theorem digit?_of_isDigit {c : Char} (h : c.isDigit = true) :
    digit? 10 c = some (c.toNat - '0'.toNat) := by
  simp only [Char.isDigit, Bool.and_eq_true, decide_eq_true_eq] at h
  have hrange : '0' ≤ c ∧ c ≤ '9' := h
  have hc : c.toNat ≤ 57 := h.2
  have hlt : c.toNat - 48 < 10 := by omega
  simp [digit?, hrange, hlt]

theorem readDigits_of_isDigit {cs : List Char} (h : ∀ c ∈ cs, c.isDigit = true) (acc : Nat) :
    readDigits 10 acc cs = some (Nat.ofDigitChars 10 cs acc) := by
  induction cs generalizing acc with
  | nil => rw [readDigits_nil, Nat.ofDigitChars_nil]
  | cons c cs ih =>
    obtain ⟨hc, hcs⟩ := List.forall_mem_cons.mp h
    rw [readDigits_cons, digit?_of_isDigit hc, Option.bind_some, ih hcs, Nat.ofDigitChars_cons,
      Nat.mul_comm]

theorem radixDigits_of_isDigit {cs : List Char} (h : ∀ c ∈ cs, c.isDigit = true) :
    radixDigits cs = (10, cs) := by
  unfold radixDigits
  split
  · exact absurd (h 'x' (by simp)) (by decide)
  · exact absurd (h 'X' (by simp)) (by decide)
  · rfl

@[simp] theorem numeral?_toDigits (n : Nat) : numeral? (Nat.toDigits 10 n) = some n := by
  have hdigits : ∀ c ∈ Nat.toDigits 10 n, c.isDigit = true := fun c hc =>
    Nat.isDigit_of_mem_toDigits (by decide) (by decide) hc
  obtain ⟨d, ds, hds⟩ := List.exists_cons_of_ne_nil (Nat.toDigits_ne_nil (n := n) (b := 10))
  rw [numeral?, radixDigits_of_isDigit hdigits, hds]
  change readDigits 10 0 (d :: ds) = some n
  rw [← hds, readDigits_of_isDigit hdigits, Nat.ofDigitChars_ten_toDigits]

end Text

namespace Written

def text : Written → String
  | register r => r.name
  | special r => r.name
  | literal n => "#" ++ toString n
  | label name => name

/-- An operand whose text is read as that operand: a literal that is a word, and a label where labels
are allowed that is an identifier and no register. -/
def IsReadable (allowLabel : Bool) : Written → Prop
  | literal n => n < UInt64.size
  | label name => allowLabel = true ∧ Token.isLabel name = true ∧ Token.isRegister name = false
  | _ => True

def token (w : Written) : Token := ⟨w.kind, w.text⟩

end Written

theorem Register.isLabel_name (r : Register) : Token.isLabel r.name = true := by
  cases r <;> decide +kernel

theorem Register.registerNumber_name (r : Register) : Token.registerNumber r.name = .ok r.index := by
  cases r <;> decide +kernel

theorem SpecialRegister.isLabel_name (r : SpecialRegister) : Token.isLabel r.name = true := by
  cases r <;> decide +kernel

theorem SpecialRegister.ofName?_trimmed_name (r : SpecialRegister) :
    SpecialRegister.ofName? (Text.trimmed r.name) = some r := by
  cases r <;> decide +kernel

theorem Mnemonic.isLabel_name (m : Mnemonic) : Token.isLabel m.name = true := by
  cases m with
  | b cond => cases cond <;> decide +kernel
  | _ => decide +kernel

/-- A text is sorted as a label only if it is an identifier and no register. -/
theorem Token.isLabel_of_classify {allowLabel : Bool} {text : String} {t : Token}
    (h : classify allowLabel text = .ok t) (hk : t.kind = .label) :
    isLabel t.text = true ∧ isRegister t.text = false := by
  unfold classify at h
  split at h
  · cases h
    cases hk
  · next hregister =>
    split at h
    · cases h
      cases hk
    · split at h
      · next hlabel =>
        cases h
        exact ⟨(Bool.and_eq_true_iff.mp hlabel).2, by simpa using hregister⟩
      · cases h

namespace Written

variable {allowLabel : Bool} {w : Written}

theorem toList_text_literal (n : Nat) : (literal n).text.toList = '#' :: Nat.toDigits 10 n := by
  rw [text, String.toList_append, Nat.toString_eq_ofList_toDigits]
  exact congrArg _ String.toList_ofList

theorem isOperand_text (h : w.IsReadable allowLabel) : SourceLine.IsOperand w.text.toList := by
  cases w with
  | register r => exact SourceLine.isOperand_of_isLabel r.isLabel_name
  | special r => exact SourceLine.isOperand_of_isLabel r.isLabel_name
  | label name => exact SourceLine.isOperand_of_isLabel h.2.1
  | literal n =>
    rw [toList_text_literal]
    refine SourceLine.isOperand_of_forall (List.cons_ne_nil _ _) ?_
    intro c hc
    rcases List.mem_cons.mp hc with rfl | hc
    · exact .inr rfl
    · have hdigit := Nat.isDigit_of_mem_toDigits (by decide) (by decide) hc
      exact .inl (by simp [Token.isLabelRest, Char.isAlphanum, hdigit])

theorem trimmed_text (h : w.IsReadable allowLabel) : Text.trimmed w.text = w.text := by
  rw [Text.trimmed, Text.trim_of_isWord (isOperand_text h).1, String.ofList_toList]

theorem says_token (h : w.IsReadable allowLabel) : w.token.Says w := by
  cases w with
  | register r => exact .register r.registerNumber_name
  | special r => exact .special r.ofName?_trimmed_name
  | label name => exact .label
  | literal n =>
    refine .literal (Token.immediateValue_eq_ok_iff.mpr ⟨Nat.toDigits 10 n, ?_, ?_⟩)
    · rw [trimmed_text h, toList_text_literal]
      rfl
    · exact Text.word?_eq_some_iff.mpr ⟨Text.numeral?_toDigits n, h⟩

theorem isImmediate_eq_false_of_isLabel {name : String} (h : Token.isLabel name = true) :
    Token.isImmediate name = false := by
  by_contra hne
  rw [Bool.not_eq_false] at hne
  obtain ⟨n, hn⟩ := Option.isSome_iff_exists.mp hne
  obtain ⟨digits, hd, -⟩ := Option.bind_eq_some_iff.mp hn
  rw [Text.toList_trimmed, Text.trim_of_isWord (SourceLine.isOperand_of_isLabel h).1] at hd
  unfold Token.afterHash? at hd
  split at hd
  · next rest hcs =>
    have hhash := (SourceLine.isLabelRest_of_isLabel h).2 '#' (by simp [hcs])
    exact absurd hhash (by decide)
  · cases hd

theorem classify_text (h : w.IsReadable allowLabel) :
    Token.classify allowLabel w.text = .ok w.token := by
  have hsaid := says_token h
  unfold Token.classify
  cases w with
  | register r => exact if_pos (Token.isRegister_of_registerNumber r.registerNumber_name)
  | special r => exact if_pos (Token.isRegister_of_special r.ofName?_trimmed_name)
  | literal n =>
    have himm : Token.isImmediate (literal n).text = true := by
      cases hsaid with
      | literal h => exact Token.isImmediate_of_immediateValue h
    rw [Token.isRegister_eq_false_of_isImmediate himm, himm]
    rfl
  | label name =>
    obtain ⟨rfl, hlabel, hregister⟩ := h
    change (if Token.isRegister name = true then _ else _) = _
    rw [hregister, text, isImmediate_eq_false_of_isLabel hlabel, hlabel]
    rfl

end Written

namespace Instruction

/-- The operands of an instruction as they are written: a destination that is also a source is
repeated, in the place that the instruction keeps for it. -/
def operands : Instruction → List Written
  | addCarry _ rdn rm | bitwise _ rdn rm | shiftBy _ rdn rm | rotateBy rdn rm =>
    [.register rdn, .register rdn, .register rm]
  | add rd rn source | arith _ rd rn source => [.register rd, .register rn, source.written]
  | negate rd rn => [.register rd, .register rn, .literal 0]
  | subSp amount => [.register .sp, .register .sp, .literal amount]
  | multiply rdm rn => [.register rdm, .register rn, .register rdm]
  | shift _ rd rm amount => [.register rd, .register rm, .literal amount]
  | moveSet rd source | compare rd source => [.register rd, source.written]
  | move rd rm | moveNot rd rm | compareSum rd rm | test rd rm | reverse _ rd rm
  | extend _ rd rm => [.register rd, .register rm]
  | readSpecial rd special => [.register rd, .special special]
  | writeSpecial special rn => [.special special, .register rn]
  | branch _ label | branchLink label => [.label label]
  | branchLinkExchange rm | branchExchange rm => [.register rm]
  | nop => []

def line (m : Mnemonic) (ws : List Written) : String :=
  " " ++ m.name ++ ",".intercalate (ws.map fun w => " " ++ w.text)

def render (i : Instruction) : String := line i.mnemonic i.operands

variable {i : Instruction} {ws : List Written}

theorem HasForm.operands (h : i.HasForm ws) : i.HasForm i.operands := by
  cases h with
  | multiplyFirst hd hs => exact .multiplySecond hd hs
  | multiplySecond hd hs => exact .multiplySecond hd hs
  | bitwiseFirst hd hm => exact .bitwiseFirst hd hm
  | bitwiseSecond _ hd hm => exact .bitwiseFirst hd hm
  | addCarry hd hm => exact .addCarry hd hm
  | addRegister h => exact .addRegister h
  | addToSp hn h4 => exact .addToSp hn h4
  | addToPointer hd h hn h4 => exact .addToPointer hd h hn h4
  | arithRegister hd hs hm => exact .arithRegister hd hs hm
  | arithLiteral hd hs hn => exact .arithLiteral hd hs hn
  | negate hd hs => exact .negate hd hs
  | subSp hn h4 => exact .subSp hn h4
  | shiftLeft hd hm hn => exact .shiftLeft hd hm hn
  | shiftRight hop hd hm hpos hn => exact .shiftRight hop hd hm hpos hn
  | shiftBy hd hm => exact .shiftBy hd hm
  | rotateBy hd hm => exact .rotateBy hd hm
  | move => exact .move
  | moveSetRegister hd hm => exact .moveSetRegister hd hm
  | moveSetLiteral hd hn => exact .moveSetLiteral hd hn
  | moveNot hd hm => exact .moveNot hd hm
  | compareRegister => exact .compareRegister
  | compareLiteral hs hn => exact .compareLiteral hs hn
  | compareSum hs hm => exact .compareSum hs hm
  | test hs hm => exact .test hs hm
  | reverse hd hm => exact .reverse hd hm
  | extend hd hm => exact .extend hd hm
  | readSpecial h => exact .readSpecial h
  | writeSpecial h => exact .writeSpecial h
  | branch => exact .branch
  | branchLink => exact .branchLink
  | branchLinkExchange => exact .branchLinkExchange
  | branchExchange => exact .branchExchange
  | nop => exact .nop

theorem HasForm.length_eq (h : i.HasForm ws) : ws.length = i.mnemonic.arity := by
  cases h with
  | @addCarry op | @arithRegister op | @arithLiteral op | @bitwiseFirst op | @bitwiseSecond op
  | @shiftRight op | @shiftBy op | @reverse op | @extend op => cases op <;> rfl
  | _ => rfl

/-- No row has a literal above that of `ADD` to `PC`. -/
theorem HasForm.literal_le (h : i.HasForm ws) {n : Nat} (hn : .literal n ∈ ws) : n ≤ 1020 := by
  cases h with
  | @arithLiteral op rd rn k hd hs hk =>
    obtain rfl : n = k := by simpa using hn
    split at hk <;> omega
  | _ => simp at hn <;> omega

/-- A label is written exactly where the instruction names it. -/
theorem HasForm.label_mem_iff (h : i.HasForm ws) {name : String} :
    .label name ∈ ws ↔ i.label? = some name := by
  cases h <;> simp [label?, eq_comm]

theorem HasForm.isReadable (h : i.HasForm ws)
    (hlabel : ∀ name ∈ i.label?, Token.isLabel name = true ∧ Token.isRegister name = false) :
    ∀ w ∈ ws, w.IsReadable i.mnemonic.takesLabel := by
  intro w hw
  cases w with
  | register r => trivial
  | special r => trivial
  | literal n => exact Nat.lt_of_le_of_lt (h.literal_le hw) (by decide)
  | label name =>
    have hname := h.label_mem_iff.mp hw
    refine ⟨?_, hlabel name hname⟩
    rw [← isSome_label?_eq, hname]
    rfl

/-- The operands of a line are spelled in it, each one after a blank. -/
theorem spellsOperands_line {allowLabel : Bool} (hne : ws ≠ [])
    (hread : ∀ w ∈ ws, w.IsReadable allowLabel) :
    SourceLine.SpellsOperands ((ws.map Written.text).map String.toList)
      ([','].intercalate (ws.map fun w => ' ' :: w.text.toList)) := by
  have htrim : ∀ w ∈ ws, Text.trim (' ' :: w.text.toList) = w.text.toList := by
    intro w hw
    exact (Text.isGap_space.trim_append _).trans (Text.trim_of_isWord (Written.isOperand_text (hread w hw)).1)
  have hpieces : (ws.map fun w => ' ' :: w.text.toList).map Text.trim =
      (ws.map Written.text).map String.toList := by
    rw [List.map_map, List.map_map]
    exact List.map_congr_left htrim
  rw [← hpieces]
  refine SourceLine.spellsOperands_intercalate (by simpa using hne) ?_
  intro piece hpiece
  obtain ⟨w, hw, rfl⟩ := List.mem_map.mp hpiece
  rw [htrim w hw]
  exact Written.isOperand_text (hread w hw)

theorem spells_line {allowLabel : Bool} (m : Mnemonic) (hread : ∀ w ∈ ws, w.IsReadable allowLabel) :
    SourceLine.Spells (line m ws) none m.name (ws.map Written.text) := by
  have hname := SourceLine.isOperand_of_isLabel m.isLabel_name
  refine ⟨nofun, ⟨hname.1, hname.2.2⟩, [' '], [','].intercalate (ws.map fun w => ' ' :: w.text.toList),
    [], Text.isGap_space, List.cons_ne_nil _ _, ?_, .inl rfl, ?_⟩
  · cases hws : ws with
    | nil => exact .none Text.isGap_nil
    | cons w rest =>
      have hstart : Text.StartsBlank
          ([','].intercalate ((w :: rest).map fun w => ' ' :: w.text.toList)) := by
        intro c hc
        cases rest <;> cases hc <;> rfl
      exact .some hstart (spellsOperands_line (List.cons_ne_nil _ _) (hws ▸ hread))
  · have htexts : ws.map (String.toList ∘ fun w => " " ++ w.text) =
        ws.map fun w => ' ' :: w.text.toList :=
      List.map_congr_left fun w _ => String.toList_append
    simp only [line, String.toList_append, String.toList_intercalate, List.map_map, htexts,
      Option.map_none, Option.getD_none, List.nil_append, List.append_nil]
    rfl

/-- A line written with the operands of a row is read as the instruction of the row. -/
theorem HasForm.parse_of_spells (h : i.HasForm ws)
    (hread : ∀ w ∈ ws, w.IsReadable i.mnemonic.takesLabel) {source name : String}
    {label : Option String} (hspells : SourceLine.Spells source label name (ws.map Written.text))
    (hname : Mnemonic.ofName? name = some i.mnemonic)
    (hlabel : ∀ l ∈ label, Token.isLabel l = true ∧ Token.isRegister l = false) {count : Nat}
    (hcount : 16 ≤ count) : Entry.parse count source = .ok ⟨source, label, i.mnemonic, i⟩ := by
  obtain ⟨text, hwritten⟩ := SourceLine.exists_writtenAs_of_spells hspells hlabel
  have hlength : (ws.map Written.text).length = i.mnemonic.arity := by
    rw [List.length_map, h.length_eq]
  obtain ⟨hparts, htexts⟩ := SourceLine.writtenAs_iff.mpr ⟨hwritten, hlength⟩
  have htokens : List.Forall₂ (fun text t => Token.classify i.mnemonic.takesLabel text = .ok t)
      (ws.map Written.text) (ws.map Written.token) := by
    rw [List.forall₂_map_left_iff, List.forall₂_map_right_iff, List.forall₂_same]
    exact fun w hw => Written.classify_text (hread w hw)
  have hsaid : List.Forall₂ Token.Says (ws.map Written.token) ws := by
    rw [List.forall₂_map_left_iff, List.forall₂_same]
    exact fun w hw => Written.says_token (hread w hw)
  have hclassified : ∀ t ∈ ws.map Written.token, t.IsClassified :=
    fun t ht => ⟨_, exists_of_mem_results htokens ht⟩
  exact Entry.parse_eq_ok_iff.mpr ⟨rfl, _, _, _, hparts, rfl, hname, htexts, htokens,
    (decode_eq_ok_iff hcount hclassified).mpr ⟨rfl, ws, hsaid, h⟩⟩

/-- An unlabelled line with the operands of a row is read as the instruction of the row. -/
theorem HasForm.parse_line (h : i.HasForm ws)
    (hread : ∀ w ∈ ws, w.IsReadable i.mnemonic.takesLabel) {count : Nat} (hcount : 16 ≤ count) :
    Entry.parse count (line i.mnemonic ws) = .ok ⟨line i.mnemonic ws, none, i.mnemonic, i⟩ :=
  h.parse_of_spells hread (spells_line i.mnemonic hread) i.mnemonic.ofName?_name nofun hcount

/-- The instruction of an accepted line has a row, and the label it names is an identifier. -/
theorem exists_hasForm_of_parse {count : Nat} (hcount : 16 ≤ count) {source : String} {e : Entry}
    (h : Entry.parse count source = .ok e) :
    e.instruction.mnemonic = e.mnemonic ∧ (∃ ws, e.instruction.HasForm ws) ∧
      ∀ name ∈ e.instruction.label?, Token.isLabel name = true ∧ Token.isRegister name = false := by
  obtain ⟨-, parts, texts, tokens, -, -, -, -, htokens, hi⟩ := Entry.parse_eq_ok_iff.mp h
  have hclassified : ∀ t ∈ tokens, t.IsClassified :=
    fun t ht => ⟨_, exists_of_mem_results htokens ht⟩
  obtain ⟨hm, ws, hsaid, hform⟩ := (decode_eq_ok_iff hcount hclassified).mp hi
  refine ⟨hm, ⟨ws, hform⟩, ?_⟩
  intro name hname
  obtain ⟨t, ht, htsays⟩ := exists_of_mem_right hsaid (hform.label_mem_iff.mpr hname)
  obtain ⟨hkind, rfl⟩ := Token.says_label_iff.mp htsays
  obtain ⟨text, htext⟩ := exists_of_mem_results htokens ht
  exact Token.isLabel_of_classify htext hkind

end Instruction

namespace Machine

/-- The rendering of an instruction with a row of the operand table is accepted by every machine. -/
theorem assemble_render_of_hasForm {i : Instruction} {ws : List Written} (h : i.HasForm ws)
    (hlabel : ∀ name ∈ i.label?, Token.isLabel name = true ∧ Token.isRegister name = false)
    {s : Shape} (m : Machine s) :
    m.assemble i.render =
      .ok { m with program := m.program.push ⟨i.render, none, i.mnemonic, i⟩ } := by
  have hform := h.operands
  exact assemble_of_parse (hform.parse_line (hform.isReadable hlabel) s.sixteen_le) nofun

/-- Rendering is undone by assembling. An instruction with a row of the operand table, whose label is
an identifier and no register, is written with the operands of such a row, and every machine accepts
the line and appends the instruction. So it is with the instruction of any line that is accepted:
rendering it and assembling the rendering, on whatever machine, gives the same instruction. -/
theorem assemble_render :
    (∀ (i : Instruction) (ws : List Written), i.HasForm ws →
      (∀ name ∈ i.label?, Token.isLabel name = true ∧ Token.isRegister name = false) →
      i.HasForm i.operands ∧ ∀ {s : Shape} (m : Machine s), m.assemble i.render =
        .ok { m with program := m.program.push ⟨i.render, none, i.mnemonic, i⟩ }) ∧
    ∀ {s : Shape} (m m₁ : Machine s) (line : String), m.assemble line = .ok m₁ →
      ∃ e, Entry.parse s.registerCount line = .ok e ∧
        m₁ = { m with program := m.program.push e } ∧
        ∀ {s' : Shape} (m' : Machine s'), m'.assemble e.instruction.render =
          .ok { m' with program :=
            m'.program.push ⟨e.instruction.render, none, e.mnemonic, e.instruction⟩ } := by
  constructor
  · intro i ws h hlabel
    exact ⟨h.operands, assemble_render_of_hasForm h hlabel⟩
  · intro s m m₁ line h
    obtain ⟨e, he, happ, hm₁⟩ := append_of_assemble h
    rw [Program.eq_push_of_append happ] at hm₁
    obtain ⟨hm, ⟨ws, hform⟩, hlabel⟩ := Instruction.exists_hasForm_of_parse s.sixteen_le he
    refine ⟨e, he, hm₁, ?_⟩
    rw [← hm]
    exact assemble_render_of_hasForm hform hlabel

/-- A branch whose name starts with that of another is rendered and read back, and so is an addition
that was spelled in another way, on a machine of another shape. -/
theorem assemble_render_respelled :
    (Instruction.branch .ls "BL").render = " BLS BL" ∧
    ((new (.architectural .w16)).assemble " BLS BL").toOption.map (·.program.get? 0) =
      some (some ⟨" BLS BL", none, .b .ls, .branch .ls "BL"⟩) ∧
    ∃ m e, (new (.architectural .w16)).assemble "x adds r1,R1 ,#0x8;y" = .ok m ∧
      m.program.get? 0 = some e ∧ e.instruction.render = " ADDS R1, R1, #8" ∧
      ((new (.architectural .w64)).assemble " ADDS R1, R1, #8").toOption.map (·.program.get? 0) =
        some (some ⟨" ADDS R1, R1, #8", none, .adds, e.instruction⟩) := by
  have hbranch : (Instruction.branch .ls "BL").render = " BLS BL" := by decide +kernel
  have hlabel : ∀ name ∈ (Instruction.branch .ls "BL").label?,
      Token.isLabel name = true ∧ Token.isRegister name = false := by
    intro name hname
    obtain rfl : "BL" = name := Option.some.inj hname
    decide +kernel
  have hfirst := (assemble_render.1 _ _ .branch hlabel).2 (new (.architectural .w16))
  rw [hbranch] at hfirst
  have hparse : Entry.parse 16 "x adds r1,R1 ,#0x8;y" = .ok ⟨"x adds r1,R1 ,#0x8;y", some "x", .adds,
      .arith .add .r1 .r1 (.immediate 8)⟩ := by decide +kernel
  have hrender : (Instruction.arith .add .r1 .r1 (.immediate 8)).render = " ADDS R1, R1, #8" := by
    decide +kernel
  obtain ⟨m, hm⟩ : ∃ m, (new (.architectural .w16)).assemble "x adds r1,R1 ,#0x8;y" = .ok m := by
    unfold assemble Program.accept
    rw [show (Shape.architectural .w16).registerCount = 16 from rfl, hparse]
    exact ⟨_, rfl⟩
  obtain ⟨e, he, rfl, hback⟩ := assemble_render.2 _ _ _ hm
  cases hparse.symm.trans he
  have hsecond := hback (new (.architectural .w64))
  rw [hrender] at hsecond
  refine ⟨hbranch, by rw [hfirst]; rfl, _, _, hm, rfl, hrender, by rw [hsecond]; rfl⟩

end Machine
end Thumb
