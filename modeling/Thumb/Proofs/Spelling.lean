import Thumb.Proofs.DecodeTable
import Thumb.Proofs.LineAcceptance
import Thumb.Proofs.ProgramLabels
import Thumb.Proofs.TokenValues

/-! Spelling. What a line adds to a program, or at which stage it is refused, depends on its label, on
its name up to case, and on what its operands denote; how an operand is written has no part in it. Two
lines are followed side by side from the text to the program. -/
namespace Thumb

/-- Both succeed, with related results, or both are refused for reasons of the same kind. -/
inductive Agree {ε δ α β : Type} (kind : ε → δ) (R : α → β → Prop) : Except ε α → Except ε β → Prop
  | ok {a : α} {b : β} (h : R a b) : Agree kind R (.ok a) (.ok b)
  | error {e e' : ε} (h : kind e = kind e') : Agree kind R (.error e) (.error e')

namespace Agree

variable {ε ε' δ α β γ γ' : Type} {kind : ε → δ} {R : α → β → Prop} {S : γ → γ' → Prop}

theorem bind {x : Except ε α} {y : Except ε β} {f : α → Except ε γ} {g : β → Except ε γ'}
    (h : Agree kind R x y) (hfg : ∀ a b, R a b → Agree kind S (f a) (g b)) :
    Agree kind S (x >>= f) (y >>= g) := by
  cases h with
  | ok h => exact hfg _ _ h
  | error h => exact .error h

theorem ok_or_error {x : Except ε α} {y : Except ε β} (h : Agree kind R x y) :
    (∃ a b, x = .ok a ∧ y = .ok b ∧ R a b) ∨
      ∃ e e', x = .error e ∧ y = .error e' ∧ kind e = kind e' := by
  cases h with
  | ok h => exact .inl ⟨_, _, rfl, rfl, h⟩
  | error h => exact .inr ⟨_, _, rfl, rfl, h⟩

theorem mono {R' : α → β → Prop} {x : Except ε α} {y : Except ε β} (h : Agree kind R x y)
    (hR : ∀ a b, R a b → R' a b) : Agree kind R' x y := by
  cases h with
  | ok h => exact .ok (hR _ _ h)
  | error h => exact .error h

theorem mapError {δ' : Type} {kind' : ε' → δ'} {k : ε → ε'} {x : Except ε α} {y : Except ε β}
    (h : Agree kind R x y) (hk : ∀ e e', kind e = kind e' → kind' (k e) = kind' (k e')) :
    Agree kind' R (x.mapError k) (y.mapError k) := by
  cases h with
  | ok h => exact .ok h
  | error h => exact .error (hk _ _ h)

/-- Where all refusals count as one, computations agree that succeed together. -/
theorem of_ok {d : δ} {x : Except ε α} {y : Except ε β}
    (hx : ∀ a, x = .ok a → ∃ b, y = .ok b ∧ R a b) (hy : ∀ b, y = .ok b → ∃ a, x = .ok a) :
    Agree (fun _ => d) R x y := by
  cases x with
  | ok a =>
    obtain ⟨b, rfl, hab⟩ := hx a rfl
    exact .ok hab
  | error e =>
    cases y with
    | ok b =>
      obtain ⟨a, ha⟩ := hy b rfl
      cases ha
    | error e' => exact .error rfl

/-- Lists of computations agree that agree member by member. -/
theorem mapM {α' β' : Type} {P : α' → β' → Prop} {f : α' → Except ε α} {g : β' → Except ε β}
    {as : List α'} {bs : List β'} (h : List.Forall₂ P as bs)
    (hfg : ∀ a b, P a b → Agree kind R (f a) (g b)) :
    Agree kind (List.Forall₂ R) (as.mapM f) (bs.mapM g) := by
  induction h with
  | nil => exact .ok .nil
  | cons hab _ ih =>
    rw [List.mapM_cons, List.mapM_cons]
    exact (hfg _ _ hab).bind fun _ _ ha => ih.bind fun _ _ has => .ok (.cons ha has)

end Agree

namespace Token

/-- Tokens that denote the same: registers with the same number, the same special register, the same
immediate, or whatever is the same text. -/
inductive Alike (t t' : String) : Prop
  | number {n : ℕ} (h : registerNumber t = .ok n) (h' : registerNumber t' = .ok n) : Alike t t'
  | special {r : SpecialRegister} (h : Text.upper (Text.trimmed t) = r.name)
    (h' : Text.upper (Text.trimmed t') = r.name) : Alike t t'
  | immediate {n : ℕ} (h : immediateValue t = .ok n) (h' : immediateValue t' = .ok n) : Alike t t'
  | same (h : t = t') : Alike t t'

theorem Alike.symm {t t' : String} (h : Alike t t') : Alike t' t := by
  cases h with
  | number h h' => exact .number h' h
  | special h h' => exact .special h' h
  | immediate h h' => exact .immediate h' h
  | same h => exact .same h.symm

/-- Letters, digits and number signs make up a word, if there are any. -/
theorem isWord_of_chars {t : String} (hne : Text.trimmed t ≠ "")
    (h : ∀ c ∈ (Text.trimmed t).toList, c.isAlphanum = true ∨ c = '#') :
    Text.IsWord (Text.trimmed t).toList := by
  refine (SourceLine.isOperand_of_forall (fun hnil => ?_) fun c hc => ?_).1
  · exact hne (String.toList_eq_nil_iff.mp hnil)
  · exact (h c hc).imp_left fun h => by simp [isLabelRest, h]

theorem isWord_of_isRegister {t : String} (h : isRegister t = true) :
    Text.IsWord (Text.trimmed t).toList := by
  refine isWord_of_chars (fun hempty => ?_) fun c hc => .inl (isAlphanum_of_isRegister h c hc)
  rw [← isRegister_trimmed, hempty] at h
  exact absurd h (by decide +kernel)

theorem isWord_of_isImmediate {t : String} (h : isImmediate t = true) :
    Text.IsWord (Text.trimmed t).toList := by
  refine isWord_of_chars (fun hempty => ?_) (isAlphanum_of_isImmediate h)
  rw [← isImmediate_trimmed, hempty] at h
  exact absurd h (by decide +kernel)

theorem Alike.isWord {t t' : String} (h : Alike t t') (ht' : Text.trimmed t' = t')
    (hword : Text.IsWord t.toList) : Text.IsWord t'.toList := by
  cases h with
  | number _ h' =>
    rw [← ht']
    exact isWord_of_isRegister (isRegister_of_registerNumber h')
  | special _ h' =>
    rw [← ht']
    exact isWord_of_isRegister (isRegister_of_special (SpecialRegister.ofName?_eq_some_iff.mpr h'))
  | immediate _ h' =>
    rw [← ht']
    exact isWord_of_isImmediate (isImmediate_of_immediateValue h')
  | same h =>
    rw [← h]
    exact hword

structure Agrees (a b : Token) : Prop where
  isClassified : a.IsClassified ∧ b.IsClassified
  says_iff : ∀ w, a.Says w ↔ b.Says w

theorem classify_of_isRegister {allowLabel : Bool} {t : String} (h : isRegister t = true) :
    classify allowLabel t = .ok ⟨.register, t⟩ := by
  simp [classify, h]

theorem classify_of_isImmediate {allowLabel : Bool} {t : String} (h : isImmediate t = true) :
    classify allowLabel t = .ok ⟨.immediate, t⟩ := by
  simp [classify, h, isRegister_eq_false_of_isImmediate h]

theorem says_of_registerNumber {t : String} {n : ℕ} (h : registerNumber t = .ok n) {w : Written} :
    Says ⟨.register, t⟩ w ↔ ∃ r : Register, w = .register r ∧ n = r.index := by
  constructor
  · intro hsaid
    cases hsaid with
    | @register _ r hr =>
      rw [h] at hr
      exact ⟨r, rfl, Except.ok.inj hr⟩
    | special hr =>
      rw [ofName?_eq_none_of_registerNumber h] at hr
      cases hr
  · rintro ⟨r, rfl, rfl⟩
    exact .register h

theorem says_of_special {t : String} {r : SpecialRegister}
    (h : SpecialRegister.ofName? (Text.trimmed t) = some r) {w : Written} :
    Says ⟨.register, t⟩ w ↔ w = .special r := by
  constructor
  · intro hsaid
    cases hsaid with
    | register hr =>
      rw [ofName?_eq_none_of_registerNumber hr] at h
      cases h
    | special hr =>
      rw [h] at hr
      cases hr
      rfl
  · rintro rfl
    exact .special h

theorem says_of_immediateValue {t : String} {n : ℕ} (h : immediateValue t = .ok n) {w : Written} :
    Says ⟨.immediate, t⟩ w ↔ w = .literal n := by
  constructor
  · intro hsaid
    cases hsaid with
    | literal hn =>
      rw [h] at hn
      cases hn
      rfl
  · rintro rfl
    exact .literal h

/-- Tokens that denote the same are sorted alike, or both are refused. -/
theorem Alike.classify {t t' : String} (h : Alike t t') (allowLabel : Bool) :
    Agree (fun _ => Error.Kind.parsing) Agrees (Token.classify allowLabel t)
      (Token.classify allowLabel t') := by
  have hagrees {a b : Token} (ha : Token.classify allowLabel t = .ok a)
      (hb : Token.classify allowLabel t' = .ok b) (hsaid : ∀ w, a.Says w ↔ b.Says w) :
      Agree (fun _ => Error.Kind.parsing) Agrees (Token.classify allowLabel t)
        (Token.classify allowLabel t') := by
    rw [ha, hb]
    exact .ok ⟨⟨⟨_, _, ha⟩, ⟨_, _, hb⟩⟩, hsaid⟩
  cases h with
  | number h h' =>
    refine hagrees (classify_of_isRegister (isRegister_of_registerNumber h))
      (classify_of_isRegister (isRegister_of_registerNumber h')) fun w => ?_
    rw [says_of_registerNumber h, says_of_registerNumber h']
  | special h h' =>
    rw [← SpecialRegister.ofName?_eq_some_iff] at h h'
    refine hagrees (classify_of_isRegister (isRegister_of_special h))
      (classify_of_isRegister (isRegister_of_special h')) fun w => ?_
    rw [says_of_special h, says_of_special h']
  | immediate h h' =>
    refine hagrees (classify_of_isImmediate (isImmediate_of_immediateValue h))
      (classify_of_isImmediate (isImmediate_of_immediateValue h')) fun w => ?_
    rw [says_of_immediateValue h, says_of_immediateValue h']
  | same h =>
    subst h
    cases hclass : Token.classify allowLabel t with
    | error e => exact .error rfl
    | ok a => exact .ok ⟨⟨⟨_, _, hclass⟩, ⟨_, _, hclass⟩⟩, fun _ => Iff.rfl⟩

/-- Tokens that say the same say the same in a row. -/
theorem forall_says_iff {tokens tokens' : List Token} (h : List.Forall₂ Agrees tokens tokens')
    (ws : List Written) : List.Forall₂ Says tokens ws ↔ List.Forall₂ Says tokens' ws := by
  induction h generalizing ws with
  | nil => exact Iff.rfl
  | cons hab _ ih => cases ws <;> simp [hab.says_iff, ih]

end Token

theorem Instruction.decode_agree {m : Mnemonic} {count : ℕ} {tokens tokens' : List Token}
    (hcount : 16 ≤ count) (h : List.Forall₂ Token.Agrees tokens tokens') :
    Agree (fun _ => Error.Kind.rule) Eq (decode m count tokens) (decode m count tokens') := by
  have hclassified : ∀ t ∈ tokens, t.IsClassified := fun t ht => by
    obtain ⟨t', -, h⟩ := exists_of_mem_right h.flip ht
    exact h.isClassified.1
  have hclassified' : ∀ t ∈ tokens', t.IsClassified := fun t ht => by
    obtain ⟨t', -, h⟩ := exists_of_mem_right h ht
    exact h.isClassified.2
  have hdecode (i : Instruction) : decode m count tokens = .ok i ↔ decode m count tokens' = .ok i := by
    rw [decode_eq_ok_iff hcount hclassified, decode_eq_ok_iff hcount hclassified']
    simp only [Matches, Token.forall_says_iff h]
  exact .of_ok (fun i hi => ⟨i, (hdecode i).mp hi, rfl⟩) fun i hi => ⟨i, (hdecode i).mpr hi⟩

theorem Mnemonic.ofName?_congr {name name' : String} (h : Text.upper name = Text.upper name') :
    ofName? name = ofName? name' := by
  rw [ofName?, ofName?, Text.findNamed?_congr h, ofBranchName?, ofBranchName?, h]

namespace SourceLine

/-- The parts that a line falls into, be they those of a line that can be read or not. -/
def split (line : String) : SourceLine :=
  let cs := code line.toList
  let rest := Text.trimStart (Text.afterWord cs)
  ⟨if Text.word cs = [] then none else some (String.ofList (Text.word cs)),
    String.ofList (Text.word rest), String.ofList (Text.trim (Text.afterWord rest))⟩

def operandList (parts : SourceLine) : List String :=
  if Text.trim parts.operands.toList = [] then []
  else (pieces parts.operands.toList).map String.ofList

theorem splitLabel_eq_ok_iff {cs rest : List Char} {label : Option String} :
    splitLabel cs = .ok (label, rest) ↔
      label = (if Text.word cs = [] then none else some (String.ofList (Text.word cs))) ∧
        rest = Text.afterWord cs ∧
          ∀ l ∈ label, Token.isLabel l = true ∧ Token.isRegister l = false := by
  unfold splitLabel
  dsimp only
  by_cases hword : Text.word cs = []
  · have hafter : Text.afterWord cs = cs := by
      have h := Text.word_append_afterWord cs
      rwa [hword, List.nil_append] at h
    rw [if_pos hword, if_pos hword, hafter]
    constructor
    · rintro ⟨⟩
      exact ⟨rfl, rfl, by simp⟩
    · rintro ⟨rfl, rfl, -⟩
      rfl
  · rw [if_neg hword, if_neg hword]
    constructor
    · intro h
      split at h
      · cases h
      · next hlabel =>
        split at h
        · cases h
        · next hregister =>
          cases h
          refine ⟨rfl, rfl, fun l hl => ?_⟩
          obtain rfl := Option.some.inj hl
          exact ⟨by simpa using hlabel, by simpa using hregister⟩
    · rintro ⟨rfl, rfl, h⟩
      obtain ⟨hlabel, hregister⟩ := h _ rfl
      rw [hlabel, hregister]
      rfl

/-- A line is read as the parts that it falls into, if these have the form of a label and a name. -/
theorem parse_eq_ok_iff_split {line : String} {parts : SourceLine} :
    parse line = .ok parts ↔ split line = parts ∧
      (∀ l ∈ parts.label, Token.isLabel l = true ∧ Token.isRegister l = false) ∧
        parts.mnemonic ≠ "" := by
  have hname (w : List Char) : String.ofList w = "" ↔ w = [] := by
    rw [← String.toList_eq_nil_iff, String.toList_ofList]
  unfold parse
  dsimp only
  rw [bind_eq_ok_iff]
  constructor
  · rintro ⟨⟨label, rest⟩, hlabel, h⟩
    obtain ⟨hcut, rfl, hvalid⟩ := splitLabel_eq_ok_iff.mp hlabel
    dsimp only at h
    split at h
    · cases h
    · next hne =>
      cases h
      refine ⟨?_, hvalid, fun h => hne ((hname _).mp h)⟩
      rw [split, hcut]
  · rintro ⟨rfl, hvalid, hne⟩
    refine ⟨(_, _), splitLabel_eq_ok_iff.mpr ⟨rfl, rfl, hvalid⟩, ?_⟩
    exact if_neg fun h => hne ((hname _).mpr h)

/-- Operands are the texts between the commas, when there are as many as asked for and each is a
word. -/
theorem operandTexts_eq_ok_iff_operandList {arity : ℕ} {parts : SourceLine} {texts : List String} :
    operandTexts arity parts.operands = .ok texts ↔ texts = parts.operandList ∧
      texts.length = arity ∧ ∀ t ∈ texts, Text.IsWord t.toList := by
  have hwords (cs : List (List Char)) :
      (∀ t ∈ cs.map String.ofList, Text.IsWord t.toList) ↔ ∀ piece ∈ cs, Text.IsWord piece := by
    simp only [List.forall_mem_map, String.toList_ofList]
  rw [operandTexts_eq_ok_iff, operandList]
  by_cases htrim : Text.trim parts.operands.toList = []
  · have hblank : ¬∀ piece ∈ pieces parts.operands.toList, Text.IsWord piece := fun h =>
      (h [] (by simp [pieces, htrim])).1 rfl
    have hgap := Text.isGap_of_trim_eq_nil htrim
    simp only [if_pos htrim, hblank, hgap, true_and, and_false, or_false]
    constructor
    · rintro ⟨hlength, rfl⟩
      exact ⟨rfl, hlength, by simp⟩
    · rintro ⟨rfl, hlength, -⟩
      exact ⟨hlength, rfl⟩
  · have hgap : ¬Text.IsGap parts.operands.toList := fun h => htrim h.trim_eq_nil
    simp only [if_neg htrim, hgap, false_and, false_or]
    constructor
    · rintro ⟨hlength, rfl, h⟩
      exact ⟨rfl, hlength, (hwords _).mpr h⟩
    · rintro ⟨rfl, hlength, h⟩
      exact ⟨hlength, rfl, (hwords _).mp h⟩

theorem trimmed_of_mem_operandList {parts : SourceLine} {t : String} (h : t ∈ parts.operandList) :
    Text.trimmed t = t := by
  rw [operandList] at h
  split at h
  · cases h
  · obtain ⟨piece, hpiece, rfl⟩ := List.mem_map.mp h
    obtain ⟨cs, -, rfl⟩ := List.mem_map.mp hpiece
    rw [Text.trimmed, String.toList_ofList, Text.trim_trim]

theorem split_of_spells {line name : String} {label : Option String} {operands : List String}
    (h : Spells line label name operands) : (split line).label = label ∧
      (split line).mnemonic = name ∧ (split line).operandList = operands := by
  obtain ⟨gap, rest, hgap, hne, hrest, hcode⟩ := SpellsChars.code_eq h
  obtain ⟨hword, hafter⟩ := word_getD_append (fun l hl => (h.isWord_label l hl).1)
    (hgap.startsBlank_append hne (name.toList ++ rest))
  obtain ⟨hname, hoperands⟩ := Text.word_append h.isWord_name.1.2 hrest.startsBlank
  rw [← hcode] at hword hafter
  have hbody : Text.trimStart (Text.afterWord (code line.toList)) = name.toList ++ rest := by
    rw [hafter, hgap.trimStart_append, Text.trimStart_of_isWord h.isWord_name.1]
  refine ⟨?_, ?_, ?_⟩
  · rw [split, hword]
    cases label with
    | none => rfl
    | some l =>
      have hne : l.toList ≠ [] := (h.isWord_label l.toList rfl).1.1
      rw [Option.map_some, Option.getD_some, if_neg hne, String.ofList_toList]
  · rw [split, hbody, hname, String.ofList_toList]
  · rw [operandList, split, hbody, hoperands, String.toList_ofList, Text.trim_trim]
    cases hops : operands.map String.toList with
    | nil =>
      rw [hops] at hrest
      cases hrest with
      | none hgap => rw [if_pos hgap.trim_eq_nil, List.map_eq_nil_iff.mp hops]
      | some _ h => exact absurd rfl h.ne_nil
    | cons op ops =>
      rw [hops] at hrest
      cases hrest with
      | some _ hspells =>
        have htrim : SpellsOperands (op :: ops) (Text.trim rest) := hspells.trimStart.trimEnd
        have hne : Text.trim rest ≠ [] := by
          intro hnil
          rw [hnil] at htrim
          exact htrim.not_isGap Text.isGap_nil
        rw [if_neg hne, htrim.pieces_eq, ← hops, map_ofList_map_toList]

/-- Lines that fall into the same parts but for spelling: the same label, the same name up to case,
and operands that denote the same one by one. -/
structure Alike (parts parts' : SourceLine) : Prop where
  label : parts.label = parts'.label
  name : Text.upper parts.mnemonic = Text.upper parts'.mnemonic
  operands : List.Forall₂ Token.Alike parts.operandList parts'.operandList

theorem Alike.symm {parts parts' : SourceLine} (h : parts.Alike parts') : parts'.Alike parts :=
  ⟨h.label.symm, h.name.symm, h.operands.flip.imp fun _ _ h => h.symm⟩

theorem parse_agree {line line' : String} (h : (split line).Alike (split line')) :
    Agree (fun _ => Error.Kind.parsing) Alike (parse line) (parse line') := by
  have hempty {t : String} : Text.upper t = "" ↔ t = "" := by
    rw [← String.toList_eq_nil_iff, Text.toList_upper, List.map_eq_nil_iff,
      String.toList_eq_nil_iff]
  have hread {line line' : String} (h : (split line).Alike (split line')) (parts : SourceLine)
      (hparts : parse line = .ok parts) : ∃ parts', parse line' = .ok parts' ∧ parts.Alike parts' := by
    obtain ⟨rfl, hlabel, hname⟩ := parse_eq_ok_iff_split.mp hparts
    rw [h.label] at hlabel
    rw [ne_eq, ← hempty, h.name, hempty] at hname
    exact ⟨_, parse_eq_ok_iff_split.mpr ⟨rfl, hlabel, hname⟩, h⟩
  refine .of_ok (hread h) fun parts' hparts' => ?_
  obtain ⟨parts, hparts, -⟩ := hread h.symm parts' hparts'
  exact ⟨parts, hparts⟩

theorem operandTexts_agree {parts parts' : SourceLine} (h : parts.Alike parts') (arity : ℕ) :
    Agree (fun _ => Error.Kind.parsing) (List.Forall₂ Token.Alike)
      (operandTexts arity parts.operands) (operandTexts arity parts'.operands) := by
  have hread {parts parts' : SourceLine} (h : parts.Alike parts') (texts : List String)
      (htexts : operandTexts arity parts.operands = .ok texts) :
      ∃ texts', operandTexts arity parts'.operands = .ok texts' ∧
        List.Forall₂ Token.Alike texts texts' := by
    obtain ⟨rfl, hlength, hwords⟩ := operandTexts_eq_ok_iff_operandList.mp htexts
    refine ⟨_, operandTexts_eq_ok_iff_operandList.mpr ⟨rfl, ?_, fun t' ht' => ?_⟩, h.operands⟩
    · rw [← h.operands.length_eq, hlength]
    · obtain ⟨t, ht, halike⟩ := exists_of_mem_right h.operands ht'
      exact halike.isWord (trimmed_of_mem_operandList ht') (hwords t ht)
  refine .of_ok (hread h) fun texts' htexts' => ?_
  obtain ⟨texts, htexts, -⟩ := hread h.symm texts' htexts'
  exact ⟨texts, htexts⟩

end SourceLine

/-- What an entry adds to a program apart from the text it was made of. -/
structure Entry.Alike (e e' : Entry) : Prop where
  label : e.label = e'.label
  mnemonic : e.mnemonic = e'.mnemonic
  instruction : e.instruction = e'.instruction

open SourceLine (split)

/-- Lines alike make entries alike, or are refused at the same stage. -/
theorem Entry.parse_agree {count : ℕ} {line line' : String} (hcount : 16 ≤ count)
    (h : (split line).Alike (split line')) :
    Agree Error.kind (fun e e' => (e.source = line ∧ e'.source = line') ∧ e.Alike e')
      (Entry.parse count line) (Entry.parse count line') := by
  refine ((SourceLine.parse_agree h).mapError fun _ _ _ => rfl).bind fun parts parts' h => ?_
  rw [← Mnemonic.ofName?_congr h.name]
  cases Mnemonic.ofName? parts.mnemonic with
  | none => exact .error rfl
  | some m =>
    refine ((SourceLine.operandTexts_agree h m.arity).mapError fun _ _ _ => rfl).bind
      fun texts texts' htexts => ?_
    refine ((Agree.mapM htexts fun _ _ h => h.classify m.takesLabel).mapError fun _ _ _ => rfl).bind
      fun tokens tokens' htokens => ?_
    refine ((Instruction.decode_agree hcount htokens).mapError fun _ _ _ => rfl).bind
      fun i i' hi => ?_
    exact .ok ⟨⟨rfl, rfl⟩, h.label, rfl, hi⟩

/-- Of an entry only the label can keep it out of a program. -/
theorem Program.append_agree (p : Program) {e e' : Entry} (h : e.Alike e') :
    Agree (fun _ => Error.Kind.validation) (fun q q' => q = p.push e ∧ q' = p.push e')
      (p.append e) (p.append e') := by
  refine .of_ok (fun q hq => ?_) fun q' hq' => ?_
  · obtain ⟨hnew, rfl⟩ := append_eq_ok_iff.mp hq
    rw [h.label] at hnew
    exact ⟨_, append_eq_ok_iff.mpr ⟨hnew, rfl⟩, rfl, rfl⟩
  · obtain ⟨hnew, rfl⟩ := append_eq_ok_iff.mp hq'
    rw [← h.label] at hnew
    exact ⟨_, append_eq_ok_iff.mpr ⟨hnew, rfl⟩⟩

/-- A program that is given one line or the other goes on with entries alike, or refuses both. -/
theorem Program.accept_agree {count : ℕ} (hcount : 16 ≤ count) (p : Program) {line line' : String}
    (h : (split line).Alike (split line')) :
    Agree Error.kind (fun q q' => ∃ e e' : Entry, (e.source = line ∧ e'.source = line') ∧
        e.Alike e' ∧ q = p.push e ∧ q' = p.push e')
      (p.accept count line) (p.accept count line') := by
  refine (Entry.parse_agree hcount h).bind fun e e' ⟨hsources, halike⟩ => ?_
  refine ((p.append_agree halike).mapError fun _ _ _ => rfl).mono fun q q' hq => ?_
  exact ⟨e, e', hsources, halike, hq⟩

namespace Machine

variable {s : Shape}

theorem assemble_agree (m : Machine s) {line line' : String}
    (h : (split line).Alike (split line')) :
    Agree Error.kind (fun m₁ m₂ => ∃ e e' : Entry, (e.source = line ∧ e'.source = line') ∧
        e.Alike e' ∧ m₁ = { m with program := m.program.push e } ∧
          m₂ = { m with program := m.program.push e' })
      (m.assemble line) (m.assemble line') := by
  refine (m.program.accept_agree s.sixteen_le h).bind fun q q' hq => ?_
  obtain ⟨e, e', hsources, halike, rfl, rfl⟩ := hq
  exact .ok ⟨e, e', hsources, halike, rfl, rfl⟩

/-- Spelling does not matter. A line falls into the parts that it is written with. Of two lines that
fall into the same label, the same name up to case and operands that denote the same one by one, a
machine accepts both, each as an entry with the same label, mnemonic and instruction, or refuses both
at the same stage. -/
theorem spelling_does_not_matter (m : Machine s) :
    (∀ line label name operands, SourceLine.Spells line label name operands →
      (split line).label = label ∧ (split line).mnemonic = name ∧
        (split line).operandList = operands) ∧
    ∀ line line', (split line).label = (split line').label →
      Text.upper (split line).mnemonic = Text.upper (split line').mnemonic →
      List.Forall₂ Token.Alike (split line).operandList (split line').operandList →
      (∃ e e' : Entry, e.source = line ∧ e'.source = line' ∧ e.label = e'.label ∧
        e.mnemonic = e'.mnemonic ∧ e.instruction = e'.instruction ∧
        m.assemble line = .ok { m with program := m.program.push e } ∧
        m.assemble line' = .ok { m with program := m.program.push e' }) ∨
      ∃ err err', m.assemble line = .error err ∧ m.assemble line' = .error err' ∧
        err.kind = err'.kind := by
  refine ⟨fun _ _ _ _ h => SourceLine.split_of_spells h, ?_⟩
  intro line line' hlabel hname hoperands
  obtain ⟨m₁, m₂, h₁, h₂, e, e', ⟨hsource, hsource'⟩, h, rfl, rfl⟩ | hrefused :=
    (m.assemble_agree ⟨hlabel, hname, hoperands⟩).ok_or_error
  · exact .inl ⟨e, e', hsource, hsource', h.label, h.mnemonic, h.instruction, h₁, h₂⟩
  · exact .inr hrefused

/-- In any spelling `LR` is moved to, and in any spelling it is refused as a low register. -/
theorem spelling_does_not_matter_linked :
    (∀ t ∈ ["R14", "r0xE", "R0014", "lr"], ∀ t' ∈ ["R14", "r0xE", "R0014", "lr"], Token.Alike t t') ∧
    (∀ t ∈ ["#16", "#0x10", "#0X010"], ∀ t' ∈ ["#16", "#0x10", "#0X010"], Token.Alike t t') ∧
    (∃ e e' : Entry, e.label = e'.label ∧ e.instruction = e'.instruction ∧
      (new (.architectural .w16)).assemble "loop MOV r0xE, R0" =
        .ok ⟨.zero _, Program.empty.push e, 0⟩ ∧
      (new (.architectural .w16)).assemble "loop\tmov lr , R0;" =
        .ok ⟨.zero _, Program.empty.push e', 0⟩) ∧
    ∃ err err', (new (.architectural .w16)).assemble " ADDS R1, R0014, #16" = .error err ∧
      (new (.architectural .w16)).assemble " adds R1,R14,#0X010" = .error err' ∧
        err.kind = err'.kind := by
  have hlink : ∀ t ∈ ["R14", "r0xE", "R0014", "lr"], Token.registerNumber t = .ok 14 := by
    decide +kernel
  have hsixteen : ∀ t ∈ ["#16", "#0x10", "#0X010"], Token.immediateValue t = .ok 16 := by
    decide +kernel
  have hmove : (split "loop MOV r0xE, R0").operandList = ["r0xE", "R0"] ∧
      (split "loop\tmov lr , R0;").operandList = ["lr", "R0"] := by decide +kernel
  have hadd : (split " ADDS R1, R0014, #16").operandList = ["R1", "R0014", "#16"] ∧
      (split " adds R1,R14,#0X010").operandList = ["R1", "R14", "#0X010"] := by decide +kernel
  have hmoves : List.Forall₂ Token.Alike (split "loop MOV r0xE, R0").operandList
      (split "loop\tmov lr , R0;").operandList := by
    rw [hmove.1, hmove.2]
    exact .cons (.number (hlink _ (by simp)) (hlink _ (by simp))) (.cons (.same rfl) .nil)
  have hadds : List.Forall₂ Token.Alike (split " ADDS R1, R0014, #16").operandList
      (split " adds R1,R14,#0X010").operandList := by
    rw [hadd.1, hadd.2]
    exact .cons (.same rfl) (.cons (.number (hlink _ (by simp)) (hlink _ (by simp)))
      (.cons (.immediate (hsixteen _ (by simp)) (hsixteen _ (by simp))) .nil))
  refine ⟨fun t ht t' ht' => .number (hlink t ht) (hlink t' ht'),
    fun t ht t' ht' => .immediate (hsixteen t ht) (hsixteen t' ht'), ?_, ?_⟩
  · obtain ⟨e, e', -, -, hlabel, -, hinstruction, he, he'⟩ | ⟨err, -, herr, -, -⟩ :=
      (new (.architectural .w16)).spelling_does_not_matter.2 _ _ (by decide +kernel)
        (by decide +kernel) hmoves
    · exact ⟨e, e', hlabel, hinstruction, he, he'⟩
    · have hsome : ((new (.architectural .w16)).assemble "loop MOV r0xE, R0").toOption.isSome =
          true := by decide +kernel
      rw [herr] at hsome
      cases hsome
  · obtain ⟨e, -, -, -, -, -, -, he, -⟩ | h :=
      (new (.architectural .w16)).spelling_does_not_matter.2 _ _ (by decide +kernel)
        (by decide +kernel) hadds
    · have hnone : ((new (.architectural .w16)).assemble " ADDS R1, R0014, #16").toOption.isSome =
          false := by decide +kernel
      rw [he] at hnone
      cases hnone
    · exact h

end Machine
end Thumb
