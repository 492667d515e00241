import Thumb.Program
import Thumb.Proofs.Outcome

/-! Accepted lines: the parts, the operand texts and the tokens that stand between a line and the
entry it makes. -/
namespace Thumb

/-- A line makes an entry exactly when each stage of reading it succeeds. -/
theorem Entry.parse_eq_ok_iff {count : Nat} {line : String} {e : Entry} :
    Entry.parse count line = .ok e ↔ e.source = line ∧ ∃ parts texts tokens,
      SourceLine.parse line = .ok parts ∧ parts.label = e.label ∧
      Mnemonic.ofName? parts.mnemonic = some e.mnemonic ∧
      SourceLine.operandTexts e.mnemonic.arity parts.operands = .ok texts ∧
      List.Forall₂ (fun text t => Token.classify e.mnemonic.takesLabel text = .ok t) texts tokens ∧
      Instruction.decode e.mnemonic count tokens = .ok e.instruction := by
  simp only [← mapM_eq_ok_iff]
  constructor
  · intro h
    obtain ⟨parts, hparts, h⟩ := bind_eq_ok_iff.mp h
    split at h
    · exact absurd h (by simp)
    · next m hm =>
      obtain ⟨texts, htexts, h⟩ := bind_eq_ok_iff.mp h
      obtain ⟨tokens, htokens, h⟩ := bind_eq_ok_iff.mp h
      obtain ⟨i, hi, h⟩ := bind_eq_ok_iff.mp h
      cases pure_eq_ok_iff.mp h
      exact ⟨rfl, parts, texts, tokens, mapError_eq_ok_iff.mp hparts, rfl, hm,
        mapError_eq_ok_iff.mp htexts, mapError_eq_ok_iff.mp htokens, mapError_eq_ok_iff.mp hi⟩
  · obtain ⟨source, label, m, i⟩ := e
    rintro ⟨rfl, parts, texts, tokens, hparts, rfl, hm, htexts, htokens, hi⟩
    dsimp only at hparts hm htexts htokens hi
    refine bind_eq_ok_iff.mpr ⟨parts, mapError_eq_ok_iff.mpr hparts, ?_⟩
    rw [hm]
    refine bind_eq_ok_iff.mpr ⟨texts, mapError_eq_ok_iff.mpr htexts, ?_⟩
    refine bind_eq_ok_iff.mpr ⟨tokens, mapError_eq_ok_iff.mpr htokens, ?_⟩
    exact bind_eq_ok_iff.mpr ⟨i, mapError_eq_ok_iff.mpr hi, rfl⟩

namespace SourceLine

theorem isLabel_of_splitLabel {cs rest : List Char} {label : String}
    (h : splitLabel cs = .ok (some label, rest)) :
    Token.isLabel label = true ∧ Token.isRegister label = false := by
  unfold splitLabel at h
  dsimp only at h
  split at h
  · cases h
  · split at h
    · cases h
    · split at h
      · cases h
      · next hlabel hregister =>
        cases h
        exact ⟨by simpa using hlabel, by simpa using hregister⟩

theorem isLabel_of_parse {line label : String} {parts : SourceLine}
    (h : parse line = .ok parts) (hl : parts.label = some label) :
    Token.isLabel label = true ∧ Token.isRegister label = false := by
  obtain ⟨⟨own, rest⟩, hsplit, h⟩ := bind_eq_ok_iff.mp h
  dsimp only at h
  split at h
  · cases h
  · cases h
    cases hl
    exact isLabel_of_splitLabel hsplit

end SourceLine
end Thumb
