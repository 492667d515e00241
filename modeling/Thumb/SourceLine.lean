import Thumb.Token

/-! Lines of assembly. A line is an optional label in the first column, an instruction name,
operands separated by commas, and a comment from the first semicolon on; blanks separate the
parts. -/
namespace Thumb

/-- The parts of a line, not yet checked against any instruction. -/
structure SourceLine where
  label : Option String
  mnemonic : String
  operands : String
  deriving DecidableEq

namespace SourceLine

/-- The line up to its comment, without trailing blanks. -/
def code (line : List Char) : List Char := Text.trimEnd (line.takeWhile (· != ';'))

/-- The label that starts in the first column, if that is not blank, and the rest of the line. -/
def splitLabel (cs : List Char) : Except ParseError (Option String × List Char) :=
  let label := String.ofList (Text.word cs)
  if Text.word cs = [] then .ok (none, cs)
  else if !Token.isLabel label then .error (.invalidLabel label)
  else if Token.isRegister label then .error (.registerAsLabel label)
  else .ok (some label, Text.afterWord cs)

def parse (line : String) : Except ParseError SourceLine := do
  let cs := code line.toList
  let (label, rest) ← splitLabel cs
  let rest := Text.trimStart rest
  if Text.word rest = [] then .error (.noInstruction (String.ofList cs))
  else
    .ok ⟨label, String.ofList (Text.word rest), String.ofList (Text.trim (Text.afterWord rest))⟩

/-- Refuses a piece between commas that is more than one word: a comma is missing in it, unless all
of the first word is a number sign that its number has been parted from. -/
def checkGap (piece : List Char) : Except ParseError Unit :=
  if Text.afterWord piece = [] then .ok ()
  else if Text.word piece = ['#'] then .error (.unknownOperand (String.ofList piece))
  else .error (.missingComma (String.ofList (Text.word piece))
    (String.ofList (Text.trimStart (Text.afterWord piece))))

/-- The operands in the text after an instruction name, exactly as many as the arity says. Of two
faults a gap in a piece comes before a wrong count, and a surplus before an empty piece. -/
def operandTexts (arity : Nat) (text : String) : Except ParseError (List String) :=
  let cs := Text.trim text.toList
  if arity = 0 then
    if cs = [] then .ok [] else .error (.operandsNotTaken (String.ofList cs))
  else if cs = [] then .error (.noOperands arity)
  else do
    let pieces := (cs.splitOn ',').map Text.trim
    pieces.forM checkGap
    let missing := pieces.findIdx (·.isEmpty)
    if arity < pieces.length then
      .error (.extraOperands ((pieces.drop arity).map String.ofList) arity)
    else if missing < arity then .error (.missingOperand missing)
    else .ok (pieces.map String.ofList)

/-- A comment has no part in the code, whatever it holds. -/
@[simp] theorem code_append_comment (cs comment : List Char) :
    code (cs ++ ';' :: comment) = code cs := by
  unfold code
  rw [List.takeWhile_append]
  split
  · next h => simp [(List.takeWhile_prefix (· != ';')).eq_of_length h]
  · rfl

example : (parse "loop ADDS R1, R1, #1 ; count").toOption =
    some ⟨some "loop", "ADDS", "R1, R1, #1"⟩ := by decide +kernel

example : (operandTexts 3 "R0 ,R1,\t#4").toOption = some ["R0", "R1", "#4"] := by decide +kernel

end SourceLine
end Thumb
