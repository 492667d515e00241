/-! Blank characters are those with the Unicode property `White_Space`. Around them text is trimmed
at either end and cut into a first word and the rest; nothing but blanks is ever lost. -/
namespace Thumb.Text

/-- Whether a character has the Unicode property `White_Space`. -/
def isBlank (c : Char) : Bool :=
  let n := c.toNat
  (0x9 ≤ n && n ≤ 0xd) || n == 0x20 || n == 0x85 || n == 0xa0 || n == 0x1680 ||
    (0x2000 ≤ n && n ≤ 0x200a) || n == 0x2028 || n == 0x2029 || n == 0x202f || n == 0x205f ||
    n == 0x3000

/-- The blanks below U+0100 are the six of ASCII, the next-line control and the no-break space. -/
example : ((List.range 0x100).filter fun n => isBlank (Char.ofNat n)) =
    [0x9, 0xa, 0xb, 0xc, 0xd, 0x20, 0x85, 0xa0] := by decide +kernel

/-- Zero-width characters and the information separators are not blank. -/
example : [0x1c, 0x1f, 0x200b, 0xfeff].all (fun n => !isBlank (Char.ofNat n)) = true := by decide

def trimStart (cs : List Char) : List Char := cs.dropWhile isBlank

def trimEnd (cs : List Char) : List Char := (trimStart cs.reverse).reverse

def trim (cs : List Char) : List Char := trimEnd (trimStart cs)

@[simp] theorem trimStart_nil : trimStart [] = [] := rfl

@[simp] theorem trimEnd_nil : trimEnd [] = [] := rfl

@[simp] theorem trim_nil : trim [] = [] := rfl

theorem trimStart_cons (c : Char) (cs : List Char) :
    trimStart (c :: cs) = if isBlank c then trimStart cs else c :: cs := by
  simp only [trimStart, List.dropWhile_cons]

theorem trimEnd_concat (cs : List Char) (c : Char) :
    trimEnd (cs ++ [c]) = if isBlank c then trimEnd cs else cs ++ [c] := by
  simp only [trimEnd, List.reverse_append, List.reverse_cons, List.reverse_nil, List.nil_append,
    List.singleton_append, trimStart_cons]
  split <;> simp

/-- The longest start of the text that holds no blank. -/
def word (cs : List Char) : List Char := cs.takeWhile (!isBlank ·)

/-- What follows the first word: nothing, or a text that starts with a blank. -/
def afterWord (cs : List Char) : List Char := cs.dropWhile (!isBlank ·)

@[simp] theorem word_append_afterWord (cs : List Char) : word cs ++ afterWord cs = cs :=
  List.takeWhile_append_dropWhile

theorem not_isBlank_of_mem_word {cs : List Char} {c : Char} (h : c ∈ word cs) :
    isBlank c = false := by
  simpa using List.all_eq_true.mp List.all_takeWhile c h

def trimmed (s : String) : String := String.ofList (trim s.toList)

@[simp] theorem toList_trimmed (s : String) : (trimmed s).toList = trim s.toList := by
  simp [trimmed]

end Thumb.Text
