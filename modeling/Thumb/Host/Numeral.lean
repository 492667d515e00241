import Thumb.Token

/-! Numbered tokens as a computer reads them: a mark is cut off at a byte of the text, the shape of
what follows is checked, and the digits are then added up in a word of 64 bits, every step of which
can overflow. The adding up alone would take a plus sign before the digits. -/
namespace Thumb
namespace Host

/-- The number of bytes of a text. -/
def byteLength : List Char → Nat
  | [] => 0
  | c :: cs => c.utf8Size + byteLength cs

/-- Cuts the text at a byte. There is no cut inside a character or past the end. -/
def cut? : Nat → List Char → Option (List Char × List Char)
  | 0, cs => some ([], cs)
  | _ + 1, [] => none
  | n + 1, c :: cs =>
    if c.utf8Size ≤ n + 1 then
      (cut? (n + 1 - c.utf8Size) cs).map fun (start, rest) => (c :: start, rest)
    else none

/-- What follows a mark, in either case. -/
def afterMark? (mark cs : List Char) : Option (List Char) :=
  (cut? (byteLength mark) cs).bind fun (start, rest) =>
    if start.map Char.toUpper = mark.map Char.toUpper then some rest else none

/-- Whether the character is a digit up to nine, or up to fifteen in either case. -/
def isHexDigit (c : Char) : Bool :=
  c.isDigit || ('a' ≤ c && c ≤ 'f') || ('A' ≤ c && c ≤ 'F')

/-- Whether the text has the shape of a number. -/
def isNumber (cs : List Char) : Bool :=
  match afterMark? ['0', 'x'] cs with
  | some hex => !hex.isEmpty && hex.all isHexDigit
  | none => !cs.isEmpty && cs.all Char.isDigit

/-- A number, for which the computer has 64 bits. -/
def long? (n : Nat) : Option Nat := if n < UInt64.size then some n else none

/-- Puts a digit after those read before. -/
def push? (radix acc : Nat) (c : Char) : Option Nat := do
  let product ← long? (acc * radix)
  let d ← Text.digit? radix c
  long? (product + d)

/-- The number of the digits, with or without a plus sign. -/
def parse? (radix : Nat) : List Char → Option Nat
  | [] => none
  | ['+'] => none
  | '+' :: digits => digits.foldlM (push? radix) 0
  | digits => digits.foldlM (push? radix) 0

/-- The number that the text is, if it is one and fits. -/
def number? (cs : List Char) : Option Nat :=
  if isNumber cs then
    match afterMark? ['0', 'x'] cs with
    | some hex => parse? 16 hex
    | none => parse? 10 cs
  else none

def registerNumber (text : String) : Except OperandError Nat :=
  let t := Text.trimmed text
  match Token.alias? t, afterMark? ['R'] t.toList with
  | some n, _ => .ok n
  | none, none => .error (.notRegister t)
  | none, some digits =>
    match number? digits with
    | some n => .ok n
    | none => .error (.registerDigits t)

def immediateValue (text : String) : Except OperandError Nat :=
  let t := Text.trimmed text
  match Token.afterHash? t.toList with
  | none => .error (.notImmediate t)
  | some digits =>
    match number? digits with
    | some n => .ok n
    | none => .error (.immediateDigits t)

def isRegister (text : String) : Bool :=
  let t := Text.trimmed text
  (Token.alias? t).isSome || (SpecialRegister.ofName? t).isSome ||
    (afterMark? ['R'] t.toList).any isNumber

def isImmediate (text : String) : Bool :=
  (Token.afterHash? (Text.trimmed text).toList).any isNumber

/-- The shape check turns away the plus sign that the adding up would take. -/
example : parse? 10 ['+', '5'] = some 5 ∧ number? ['+', '5'] = none := by decide +kernel

end Host
end Thumb
