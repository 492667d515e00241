/-! Numerals: one or more decimal digits, or `0x` and one or more hexadecimal digits, in either
case. A numeral denotes a natural number of any size; as a word it has to be below 2^64. -/
namespace Thumb.Text

/-- The value of a digit in a radix of at most sixteen. -/
def digit? (radix : Nat) (c : Char) : Option Nat :=
  Option.filter (· < radix)
    (if '0' ≤ c ∧ c ≤ '9' then some (c.toNat - '0'.toNat)
    else if 'a' ≤ c ∧ c ≤ 'f' then some (c.toNat - 'a'.toNat + 10)
    else if 'A' ≤ c ∧ c ≤ 'F' then some (c.toNat - 'A'.toNat + 10)
    else none)

/-- The number that digits denote when those before them denote `acc`. -/
def readDigits (radix : Nat) : Nat → List Char → Option Nat
  | acc, [] => some acc
  | acc, c :: cs => (digit? radix c).bind fun d => readDigits radix (acc * radix + d) cs

/-- The radix that the start of a numeral announces, and the digits that have to follow. -/
def radixDigits : List Char → Nat × List Char
  | '0' :: 'x' :: cs => (16, cs)
  | '0' :: 'X' :: cs => (16, cs)
  | cs => (10, cs)

def numeral? (cs : List Char) : Option Nat :=
  match radixDigits cs with
  | (_, []) => none
  | (radix, digits) => readDigits radix 0 digits

/-- The number that a numeral denotes, if it is below 2^64. -/
def word? (cs : List Char) : Option Nat := (numeral? cs).filter (· < UInt64.size)

theorem digit?_lt {radix d : Nat} {c : Char} (h : digit? radix c = some d) : d < radix := by
  simpa using (Option.filter_eq_some_iff.mp h).2

@[simp] theorem readDigits_nil (radix acc : Nat) : readDigits radix acc [] = some acc := rfl

@[simp] theorem readDigits_cons (radix acc : Nat) (c : Char) (cs : List Char) :
    readDigits radix acc (c :: cs) =
      (digit? radix c).bind fun d => readDigits radix (acc * radix + d) cs := rfl

@[simp] theorem numeral?_nil : numeral? [] = none := rfl

theorem word?_eq_some_iff {cs : List Char} {n : Nat} :
    word? cs = some n ↔ numeral? cs = some n ∧ n < UInt64.size := by
  simp [word?, Option.filter_eq_some_iff]

example : numeral? ['0', 'X', 'f', 'F'] = some 255 := by decide

example : numeral? ['0', '0', '9'] = some 9 := by decide

/-- A sign, a separator, a lone radix and a digit out of range are all refused. -/
example : [[], ['+', '1'], ['1', '_', '0'], ['0', 'x'], ['0', 'x', 'g'], ['a']].all
    (fun cs => (numeral? cs).isNone) = true := by decide

end Thumb.Text
