import Thumb.Proofs.AcceptedLine
import Thumb.Proofs.LineGrammar

/-! Cutting a line into its parts. A line that is cut successfully is written with the parts it is
cut into, and it is written with no others. -/
namespace Thumb
namespace SourceLine

open Text

theorem mem_of_mem_splitOn {sep : Char} {cs piece : List Char} (h : piece ∈ cs.splitOn sep) :
    ∀ c ∈ piece, c ∈ cs ∧ c ≠ sep := by
  induction cs generalizing piece with
  | nil =>
    rw [List.splitOn_nil, List.mem_singleton] at h
    rw [h]
    exact nofun
  | cons d cs ih =>
    obtain ⟨first, others, hsplit⟩ := List.exists_cons_of_ne_nil (List.splitOn_ne_nil sep cs)
    have htail : ∀ p ∈ cs.splitOn sep, ∀ c ∈ p, c ∈ d :: cs ∧ c ≠ sep := by
      intro p hp c hc
      exact ⟨List.mem_cons_of_mem _ (ih hp c hc).1, (ih hp c hc).2⟩
    rw [List.splitOn_cons_eq_if_modifyHead] at h
    split at h
    · rcases List.mem_cons.mp h with rfl | h
      · exact nofun
      · exact htail piece h
    · next hd =>
      rw [hsplit] at htail
      rw [hsplit, List.modifyHead_cons, List.mem_cons] at h
      rcases h with rfl | h
      · intro c hc
        rcases List.mem_cons.mp hc with rfl | hc
        · exact ⟨List.mem_cons_self, by simpa using hd⟩
        · exact htail first List.mem_cons_self c hc
      · exact htail piece (List.mem_cons_of_mem _ h)

theorem mem_of_mem_trim {cs : List Char} {c : Char} (h : c ∈ trim cs) : c ∈ cs := by
  obtain ⟨pre, post, -, -, hcs⟩ := exists_gap_trim cs
  rw [hcs]
  simp [h]

def pieces (text : List Char) : List (List Char) := ((trim text).splitOn ',').map trim

theorem checkGap_eq_ok_iff {piece : List Char} :
    checkGap piece = .ok () ↔ afterWord piece = [] := by
  unfold checkGap
  split
  · next h => simp [h]
  · next h => split <;> simp [h]

/-- No check refuses the pieces exactly when they are words, as many as asked for. -/
theorem checks_iff {arity : Nat} {cs : List (List Char)} :
    (cs.forM checkGap = .ok () ∧ ¬arity < cs.length ∧ ¬cs.findIdx (·.isEmpty) < arity) ↔
      cs.length = arity ∧ ∀ piece ∈ cs, IsWord piece := by
  have hfound : cs.findIdx (·.isEmpty) ≤ cs.length := List.findIdx_le_length
  rw [forM_eq_ok_iff]
  constructor
  · rintro ⟨hgaps, hmany, hmissing⟩
    have hnone : cs.findIdx (·.isEmpty) = cs.length := by omega
    refine ⟨by omega, ?_⟩
    intro piece hpiece
    have hne : piece.isEmpty = false := List.findIdx_eq_length.mp hnone piece hpiece
    exact isWord_iff.mpr ⟨by simpa using hne, checkGap_eq_ok_iff.mp (hgaps piece hpiece)⟩
  · rintro ⟨hlength, hwords⟩
    have hnone : cs.findIdx (·.isEmpty) = cs.length :=
      List.findIdx_eq_length.mpr fun piece hpiece => by simpa using (hwords piece hpiece).1
    refine ⟨?_, by omega, by omega⟩
    intro piece hpiece
    exact checkGap_eq_ok_iff.mpr (isWord_iff.mp (hwords piece hpiece)).2

/-- Operand texts are the pieces between the commas, each of them a word, or there are none. -/
theorem operandTexts_eq_ok_iff {arity : Nat} {text : String} {texts : List String} :
    operandTexts arity text = .ok texts ↔ texts.length = arity ∧
      (IsGap text.toList ∧ texts = [] ∨
        texts = (pieces text.toList).map String.ofList ∧
          ∀ piece ∈ pieces text.toList, IsWord piece) := by
  have hne : pieces text.toList ≠ [] := by simp [pieces]
  unfold operandTexts
  dsimp only
  split
  · next harity =>
    rw [guard_eq_ok_iff]
    constructor
    · rintro ⟨htrim, rfl⟩
      exact ⟨harity.symm, .inl ⟨isGap_of_trim_eq_nil htrim, rfl⟩⟩
    · rintro ⟨hlength, ⟨hgap, rfl⟩ | ⟨rfl, -⟩⟩
      · exact ⟨hgap.trim_eq_nil, rfl⟩
      · rw [List.length_map, harity] at hlength
        exact absurd (List.eq_nil_of_length_eq_zero hlength) hne
  · next harity =>
    split
    · next htrim =>
      refine iff_of_false nofun ?_
      rintro ⟨hlength, ⟨-, rfl⟩ | ⟨-, hwords⟩⟩
      · exact harity hlength.symm
      · exact (hwords [] (by simp [pieces, htrim])).1 rfl
    · next htrim =>
      change ((pieces text.toList).forM checkGap >>= fun _ => ite _ _ (ite _ _ _)) = _ ↔ _
      rw [bind_eq_ok_iff]
      constructor
      · rintro ⟨_, hgaps, h⟩
        split at h
        · cases h
        · next hmany =>
          split at h
          · cases h
          · next hmissing =>
            cases h
            obtain ⟨hlength, hwords⟩ := checks_iff.mp ⟨hgaps, hmany, hmissing⟩
            exact ⟨by rw [← hlength, List.length_map]; rfl, .inr ⟨rfl, hwords⟩⟩
      · rintro ⟨hlength, ⟨hgap, -⟩ | ⟨rfl, hwords⟩⟩
        · exact absurd hgap.trim_eq_nil htrim
        · rw [List.length_map] at hlength
          obtain ⟨hgaps, hmany, hmissing⟩ := checks_iff.mpr ⟨hlength, hwords⟩
          exact ⟨(), hgaps, (if_neg hmany).trans (if_neg hmissing)⟩

theorem map_toList_map_ofList (texts : List (List Char)) :
    (texts.map String.ofList).map String.toList = texts := by
  rw [List.map_map]
  have hid : String.toList ∘ String.ofList = id := by
    funext cs
    exact String.toList_ofList
  rw [hid, List.map_id]

theorem map_ofList_map_toList (texts : List String) :
    (texts.map String.toList).map String.ofList = texts := by
  rw [List.map_map]
  have hid : String.ofList ∘ String.toList = id := by
    funext s
    exact String.ofList_toList
  rw [hid, List.map_id]

theorem SpellsOperands.pieces_eq {ops : List (List Char)} {text : List Char}
    (h : SpellsOperands ops text) : pieces text = ops := h.trimStart.trimEnd.splitOn

theorem SpellsOperands.ne_nil {ops : List (List Char)} {text : List Char}
    (h : SpellsOperands ops text) : ops ≠ [] := by
  cases h <;> exact List.cons_ne_nil _ _

theorem SpellsOperands.not_isGap {ops : List (List Char)} {text : List Char}
    (h : SpellsOperands ops text) : ¬IsGap text := by
  intro hgap
  have hpieces := h.pieces_eq
  rw [pieces, hgap.trim_eq_nil, List.splitOn_nil, List.map_singleton, trim_nil] at hpieces
  have hop := h.isOperand [] (by simp [← hpieces])
  exact hop.1.1 rfl

/-- A text whose pieces are words spells them. -/
theorem spellsOperands_pieces {text : List Char} (hsemi : ';' ∉ text)
    (hwords : ∀ piece ∈ pieces text, IsWord piece) : SpellsOperands (pieces text) text := by
  have hops : ∀ piece ∈ (trim text).splitOn ',', IsOperand (trim piece) := by
    intro piece hpiece
    have hmem := mem_of_mem_splitOn hpiece
    refine ⟨hwords _ (List.mem_map_of_mem hpiece), ?_, ?_⟩
    · intro hc
      exact (hmem ',' (mem_of_mem_trim hc)).2 rfl
    · intro hc
      exact hsemi (mem_of_mem_trim (hmem ';' (mem_of_mem_trim hc)).1)
  have hspells := spellsOperands_intercalate (List.splitOn_ne_nil ',' (trim text)) hops
  rw [List.intercalate_splitOn] at hspells
  obtain ⟨pre, post, hpre, hpost, htext⟩ := exists_gap_trim text
  have hwhole := (hspells.prepend hpre).extend hpost
  rwa [← htext] at hwhole

/-- The operands that are read off a text without a comment are those that are spelled there, as
many as are asked for. -/
theorem operandTexts_eq_ok_iff_spells {arity : Nat} {text : String} {texts : List String}
    (hsemi : ';' ∉ text.toList) :
    operandTexts arity text = .ok texts ↔ texts.length = arity ∧
      (IsGap text.toList ∧ texts = [] ∨
        SpellsOperands (texts.map String.toList) text.toList) := by
  rw [operandTexts_eq_ok_iff]
  refine and_congr_right fun _ => or_congr_right ?_
  constructor
  · rintro ⟨rfl, hwords⟩
    rw [map_toList_map_ofList]
    exact spellsOperands_pieces hsemi hwords
  · intro h
    refine ⟨?_, ?_⟩
    · rw [h.pieces_eq, map_ofList_map_toList]
    · rw [h.pieces_eq]
      intro piece hpiece
      exact (h.isOperand piece hpiece).1

theorem word_eq_nil {cs : List Char} (h : StartsBlank cs) : word cs = [] :=
  (word_append (w := []) (by simp) h).1

/-- A label is the first word of the line, and a line without one starts with a blank. -/
theorem splitLabel_eq_ok {cs rest : List Char} {label : Option String}
    (h : splitLabel cs = .ok (label, rest)) :
    cs = (label.map String.toList).getD [] ++ rest ∧ StartsBlank rest ∧
      ∀ l ∈ label.map String.toList, IsWord l := by
  unfold splitLabel at h
  dsimp only at h
  split at h
  · next hword =>
    cases h
    have hafter := word_append_afterWord cs
    rw [hword, List.nil_append] at hafter
    refine ⟨rfl, ?_, nofun⟩
    rw [← hafter]
    exact startsBlank_afterWord cs
  · next hword =>
    split at h
    · cases h
    · split at h
      · cases h
      · cases h
        refine ⟨?_, startsBlank_afterWord cs, ?_⟩
        · simp
        · intro l hl
          obtain rfl : word cs = l := by simpa using hl
          exact isWord_word hword

/-- What is not code is nothing or starts with a semicolon. -/
theorem comment_dropWhile (cs : List Char) :
    cs.dropWhile (· != ';') = [] ∨ ∃ text, cs.dropWhile (· != ';') = ';' :: text := by
  induction cs with
  | nil => exact .inl rfl
  | cons c cs ih =>
    by_cases hc : c = ';'
    · exact .inr ⟨cs, by simp [hc]⟩
    · rw [List.dropWhile_cons_of_pos (by simpa using hc)]
      exact ih

/-- What follows a label is blanks, the name, and operands with blanks around them. -/
theorem exists_gaps_around_name {rest : List Char} (hblank : StartsBlank rest)
    (hname : word (trimStart rest) ≠ []) :
    ∃ lead gap post, IsGap lead ∧ lead ≠ [] ∧ IsGap gap ∧ IsGap post ∧
      (trim (afterWord (trimStart rest)) = [] ∨ gap ≠ []) ∧
      rest = lead ++ word (trimStart rest) ++
        (gap ++ trim (afterWord (trimStart rest)) ++ post) := by
  obtain ⟨lead, hlead, hrest⟩ := exists_gap_trimStart rest
  obtain ⟨gap, post, hgap, hpost, hstart, hafter⟩ :=
    (startsBlank_afterWord (trimStart rest)).exists_gap_trim
  refine ⟨lead, gap, post, hlead, ?_, hgap, hpost, hstart, ?_⟩
  · -- with no blanks in between the name would belong to the label
    rintro rfl
    rw [List.nil_append] at hrest
    rw [← hrest] at hname
    exact hname (word_eq_nil hblank)
  · rw [← hafter, List.append_assoc, word_append_afterWord]
    exact hrest

/-- A line is composed of the parts that are read off it. -/
theorem composes_of_parse {line : String} {parts : SourceLine} (h : parse line = .ok parts) :
    parts.Composes line := by
  have hlabels : ∀ label ∈ parts.label, _ := fun _ hl => isLabel_of_parse h hl
  obtain ⟨⟨label, rest⟩, hsplit, h⟩ := bind_eq_ok_iff.mp h
  dsimp only at h
  split at h
  · cases h
  · next hname =>
    cases h
    obtain ⟨hcode, hblank, -⟩ := splitLabel_eq_ok hsplit
    obtain ⟨lead, gap, post, hlead, hne, hgap, hpost, hstart, hrest⟩ :=
      exists_gaps_around_name hblank hname
    obtain ⟨back, hback, hbody⟩ := exists_gap_trimEnd (line.toList.takeWhile (· != ';'))
    have hbefore : line.toList.takeWhile (· != ';') = (label.map String.toList).getD [] ++ lead ++
        word (trimStart rest) ++ (gap ++ trim (afterWord (trimStart rest)) ++ (post ++ back)) := by
      rw [hbody]
      change code line.toList ++ back = _
      rw [hcode]
      nth_rewrite 1 [hrest]
      simp only [List.append_assoc]
    have hsemi : ';' ∉ (label.map String.toList).getD [] ++ lead ++ word (trimStart rest) ++
        (gap ++ trim (afterWord (trimStart rest)) ++ (post ++ back)) := by
      intro hmem
      rw [← hbefore] at hmem
      simpa using List.mem_takeWhile_imp hmem
    simp only [List.mem_append, not_or] at hsemi
    refine ⟨hlabels, ⟨?_, ?_⟩, ⟨?_, ?_⟩, lead, gap, post ++ back,
      line.toList.dropWhile (· != ';'), hlead, hne, hgap, ?_, isGap_append.mpr ⟨hpost, hback⟩,
      comment_dropWhile line.toList, ?_⟩
    · rw [String.toList_ofList]
      exact isWord_word hname
    · rw [String.toList_ofList]
      exact hsemi.1.2
    · rw [String.toList_ofList, trim_trim]
    · rw [String.toList_ofList]
      exact hsemi.2.1.2
    · refine hstart.imp_left ?_
      intro hnone
      rw [hnone, String.ofList_nil]
    · rw [String.toList_ofList, String.toList_ofList, ← hbefore, List.takeWhile_append_dropWhile]

/-- The operands that are read off a composed line are written in it. -/
theorem Composes.spells {line : String} {parts : SourceLine} {arity : Nat} {texts : List String}
    (h : parts.Composes line) (hops : operandTexts arity parts.operands = .ok texts) :
    Spells line parts.label parts.mnemonic texts := by
  obtain ⟨hlabel, hname, ⟨-, hsemi⟩, lead, gap, post, comment, hlead, hne, hgap, hstart, hpost,
    hcomment, hline⟩ := h
  refine ⟨?_, hname, lead, gap ++ parts.operands.toList ++ post, comment, hlead, hne, ?_,
    hcomment, hline⟩
  · intro l hl
    obtain ⟨label, hmem, rfl⟩ := Option.map_eq_some_iff.mp hl
    have hop := isOperand_of_isLabel (hlabel label hmem).1
    exact ⟨hop.1, hop.2.2⟩
  · obtain ⟨-, ⟨hblank, rfl⟩ | hspells⟩ := (operandTexts_eq_ok_iff_spells hsemi).mp hops
    · exact .none (isGap_append.mpr ⟨isGap_append.mpr ⟨hgap, hblank⟩, hpost⟩)
    · refine .some ?_ ((hspells.prepend hgap).extend hpost)
      rcases hstart with hnone | hgapNe
      · rw [hnone] at hspells
        exact absurd isGap_nil hspells.not_isGap
      · rw [List.append_assoc]
        exact hgap.startsBlank_append hgapNe _

/-- A line that is read is written with the parts that are read off it. -/
theorem spells_of_parse {line : String} {parts : SourceLine} {arity : Nat} {texts : List String}
    (h : parse line = .ok parts) (hops : operandTexts arity parts.operands = .ok texts) :
    Spells line parts.label parts.mnemonic texts := (composes_of_parse h).spells hops

theorem StartsBlank.trimEnd {cs : List Char} (h : StartsBlank cs) :
    StartsBlank (Text.trimEnd cs) := by
  obtain ⟨post, -, hcs⟩ := exists_gap_trimEnd cs
  rw [hcs] at h
  exact Text.StartsBlank.left h

theorem SpellsRest.startsBlank {ops : List (List Char)} {text : List Char}
    (h : SpellsRest ops text) : StartsBlank text := by
  cases h with
  | none h => exact h.startsBlank
  | some h _ => exact h

theorem SpellsRest.trimEnd {ops : List (List Char)} {text : List Char}
    (h : SpellsRest ops text) : SpellsRest ops (Text.trimEnd text) := by
  cases h with
  | none h =>
    rw [h.trimEnd_eq_nil]
    exact .none isGap_nil
  | some hstart h => exact .some (StartsBlank.trimEnd hstart) h.trimEnd

theorem SpellsRest.operandTexts_eq {ops : List (List Char)} {text : List Char} {arity : Nat}
    {texts : List String} (h : SpellsRest ops text)
    (hops : operandTexts arity (String.ofList (trim text)) = .ok texts) :
    texts.map String.toList = ops := by
  have hsemi : ';' ∉ trim text := fun hc => h.not_mem_semicolon (mem_of_mem_trim hc)
  rw [operandTexts_eq_ok_iff_spells (by rwa [String.toList_ofList]), String.toList_ofList] at hops
  obtain ⟨-, hread⟩ := hops
  cases h with
  | none hgap =>
    rcases hread with ⟨-, rfl⟩ | hspells
    · rfl
    · rw [hgap.trim_eq_nil] at hspells
      exact absurd isGap_nil hspells.not_isGap
  | some _ h =>
    have htrim : SpellsOperands ops (trim text) := h.trimStart.trimEnd
    rcases hread with ⟨hgap, -⟩ | hspells
    · exact absurd hgap htrim.not_isGap
    · exact hspells.pieces_eq.symm.trans htrim.pieces_eq

/-- Before its comment a line loses only the blanks at its end. -/
theorem code_line {label : Option (List Char)} {lead name rest comment : List Char}
    (hlabel : ∀ l ∈ label, ';' ∉ l) (hlead : IsGap lead) (hname : IsWord name ∧ ';' ∉ name)
    (hrest : ';' ∉ rest) (hcomment : comment = [] ∨ ∃ text, comment = ';' :: text) :
    code (label.getD [] ++ lead ++ name ++ rest ++ comment) =
      label.getD [] ++ (lead ++ (name ++ Text.trimEnd rest)) := by
  have hlabelSemi : ';' ∉ label.getD [] := by
    cases label with
    | none => exact nofun
    | some l => exact hlabel l rfl
  have hbefore : ∀ c ∈ label.getD [] ++ lead ++ name ++ rest, (c != ';') = true := by
    intro c hc
    rw [bne_iff_ne]
    rintro rfl
    simp only [List.mem_append] at hc
    rcases hc with ((hc | hc) | hc) | hc
    · exact hlabelSemi hc
    · exact IsGap.not_mem hlead (by decide) hc
    · exact hname.2 hc
    · exact hrest hc
  have hnone : comment.takeWhile (· != ';') = [] := by
    rcases hcomment with rfl | ⟨text, rfl⟩ <;> rfl
  rw [code, List.takeWhile_append_of_pos hbefore, hnone, List.append_nil,
    trimEnd_append_of_isWord hname.1]
  simp only [List.append_assoc]

theorem SpellsChars.code_eq {line name : List Char} {label : Option (List Char)}
    {ops : List (List Char)} (h : SpellsChars line label name ops) :
    ∃ gap rest, IsGap gap ∧ gap ≠ [] ∧ SpellsRest ops rest ∧
      code line = label.getD [] ++ (gap ++ (name ++ rest)) := by
  obtain ⟨hlabel, hname, gap, rest, comment, hgap, hne, hrest, hcomment, rfl⟩ := h
  refine ⟨gap, Text.trimEnd rest, hgap, hne, hrest.trimEnd, ?_⟩
  exact code_line (fun l hl => (hlabel l hl).2) hgap hname hrest.not_mem_semicolon hcomment

/-- A label that is not empty is told from the characters it puts in front. -/
theorem label_eq_of_getD_eq {o o' : Option (List Char)} (h : ∀ l ∈ o, IsWord l)
    (h' : ∀ l ∈ o', IsWord l) (heq : o.getD [] = o'.getD []) : o = o' := by
  cases o with
  | none =>
    cases o' with
    | none => rfl
    | some l => exact absurd heq.symm (h' l rfl).1
  | some l =>
    cases o' with
    | none => exact absurd heq (h l rfl).1
    | some l' => exact congrArg some heq

theorem word_getD_append {o : Option (List Char)} {rest : List Char} (h : ∀ l ∈ o, IsWord l)
    (hrest : StartsBlank rest) :
    word (o.getD [] ++ rest) = o.getD [] ∧ afterWord (o.getD [] ++ rest) = rest := by
  apply word_append ?_ hrest
  cases o with
  | none => exact nofun
  | some l => exact (h l rfl).2

/-- A line that is read is written with no other parts than those that are read off it. -/
theorem parts_of_spells {line name : String} {label : Option String} {operands texts : List String}
    {parts : SourceLine} {arity : Nat} (h : Spells line label name operands)
    (hp : parse line = .ok parts) (hops : operandTexts arity parts.operands = .ok texts) :
    parts.label = label ∧ parts.mnemonic = name ∧ texts = operands := by
  have hinj : Function.Injective String.toList := fun _ _ => String.toList_injective
  obtain ⟨gap, rest, hgap, hne, hrest, hcode⟩ := SpellsChars.code_eq h
  obtain ⟨⟨own, tail⟩, hsplit, hp⟩ := bind_eq_ok_iff.mp hp
  obtain ⟨hown, hblank, hlabel⟩ := splitLabel_eq_ok hsplit
  have hcut := word_getD_append (fun l hl => (h.isWord_label l hl).1)
    (hgap.startsBlank_append hne (name.toList ++ rest))
  have hcut' := word_getD_append hlabel hblank
  -- both labels are the first word of the same text
  rw [← hcode, hown, hcut'.1, hcut'.2] at hcut
  obtain ⟨hsame, rfl⟩ := hcut
  have hsame := label_eq_of_getD_eq hlabel (fun l hl => (h.isWord_label l hl).1) hsame
  obtain rfl : own = label := Option.map_injective hinj hsame
  obtain ⟨hname, hrestEq⟩ := word_append h.isWord_name.1.2 hrest.startsBlank
  dsimp only at hp
  rw [hgap.trimStart_append, trimStart_of_isWord h.isWord_name.1, hname, hrestEq,
    if_neg h.isWord_name.1.1] at hp
  cases hp
  refine ⟨rfl, String.ofList_toList, ?_⟩
  exact List.map_injective_iff.mpr hinj (hrest.operandTexts_eq hops)

end SourceLine
end Thumb
