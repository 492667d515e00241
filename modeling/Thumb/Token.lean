import Thumb.Error
import Thumb.Text.Blank
import Thumb.Text.Numeral

/-! Operand tokens. A token has the shape of a register, an immediate or a label; the shape is
decided before the number in it is read, so a number of the right shape can still be too large. -/
namespace Thumb

inductive TokenKind
  | register
  | immediate
  | label
  deriving DecidableEq

/-- An operand as written, with the kind it was sorted into. -/
structure Token where
  kind : TokenKind
  text : String
  deriving DecidableEq

namespace Token

/-- The register number that one of the names `SP`, `LR` and `PC` stands for. -/
def alias? (text : String) : Option Nat :=
  (Text.findNamed? Prod.fst [("SP", 13), ("LR", 14), ("PC", 15)] text).map Prod.snd

def afterR? : List Char → Option (List Char)
  | 'R' :: rest => some rest
  | 'r' :: rest => some rest
  | _ => none

def afterHash? : List Char → Option (List Char)
  | '#' :: rest => some rest
  | _ => none

/-- Whether the text is a numeral after the mark that the given function cuts off. -/
def isMarkedNumeral (after? : List Char → Option (List Char)) (text : String) : Bool :=
  ((after? text.toList).bind Text.numeral?).isSome

/-- Whether the text, but for blanks around it, looks like a register: a number after `R`, an alias
or the name of a special register. -/
def isRegister (text : String) : Bool :=
  let t := Text.trimmed text
  (alias? t).isSome || (SpecialRegister.ofName? t).isSome || isMarkedNumeral afterR? t

def isImmediate (text : String) : Bool := isMarkedNumeral afterHash? (Text.trimmed text)

def isLabelStart (c : Char) : Bool := c.isAlpha || c == '_' || c == '.'

def isLabelRest (c : Char) : Bool := c.isAlphanum || c == '_' || c == '.'

/-- Whether the text is an identifier. Registers are identifiers too; they are looked for first. -/
def isLabel (text : String) : Bool :=
  match text.toList with
  | [] => false
  | c :: cs => isLabelStart c && cs.all isLabelRest

/-- The number of the register that the text names, but for blanks around it. -/
def registerNumber (text : String) : Except OperandError Nat :=
  let t := Text.trimmed text
  match alias? t, afterR? t.toList with
  | some n, _ => .ok n
  | none, none => .error (.notRegister t)
  | none, some digits =>
    match Text.word? digits with
    | some n => .ok n
    | none => .error (.registerDigits t)

def immediateValue (text : String) : Except OperandError Nat :=
  let t := Text.trimmed text
  match afterHash? t.toList with
  | none => .error (.notImmediate t)
  | some digits =>
    match Text.word? digits with
    | some n => .ok n
    | none => .error (.immediateDigits t)

/-- The token of a text; it can be a label only where one is allowed. -/
def classify (allowLabel : Bool) (text : String) : Except ParseError Token :=
  if isRegister text then .ok ⟨.register, text⟩
  else if isImmediate text then .ok ⟨.immediate, text⟩
  else if allowLabel && isLabel text then .ok ⟨.label, text⟩
  else .error (.unknownOperand text)

@[simp] theorem text_of_classify {allowLabel : Bool} {text : String} {t : Token}
    (h : classify allowLabel text = .ok t) : t.text = text := by
  unfold classify at h
  split at h
  · cases h
    rfl
  · split at h
    · cases h
      rfl
    · split at h
      · cases h
        rfl
      · cases h

end Token
end Thumb
