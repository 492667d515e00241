import Thumb.Text.Printable

/-! Quoted text: a text between double quotes on one line, in which every character that would not
show as itself is spelled out. -/
namespace Thumb.Text

/-- A character inside a quotation: quotes, backslashes and four common controls have escapes of two
characters, and any other unprintable character is given by its code point in hexadecimal. -/
def escape : Char → List Char
  | '"' => ['\\', '"']
  | '\\' => ['\\', '\\']
  | '\x00' => ['\\', '0']
  | '\t' => ['\\', 't']
  | '\n' => ['\\', 'n']
  | '\r' => ['\\', 'r']
  | c =>
    if isPrintable c then [c]
    else ['\\', 'u', '\x7b'] ++ Nat.toDigits 16 c.toNat ++ ['\x7d']

def quote (s : String) : String :=
  String.ofList ('"' :: s.toList.flatMap escape ++ ['"'])

@[simp] theorem toList_quote (s : String) :
    (quote s).toList = '"' :: s.toList.flatMap escape ++ ['"'] := by simp [quote]

example : escape '\'' = ['\''] := by decide +kernel

example : escape '\u00ad' = ['\\', 'u', '\x7b', 'a', 'd', '\x7d'] := by decide +kernel

example : escape '\uff9e' = ['\uff9e'] := by decide +kernel

end Thumb.Text
