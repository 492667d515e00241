/-! Letter case: names of instructions and registers are written in capitals and read in either case
of the ASCII letters. -/
namespace Thumb.Text

/-- The text with the ASCII letters in capitals, all else unchanged. -/
def upper (s : String) : String := String.ofList (s.toList.map Char.toUpper)

@[simp] theorem toList_upper (s : String) : (upper s).toList = s.toList.map Char.toUpper := by
  simp [upper]

/-- The member of a list whose name is the given one up to case, the names being in capitals. -/
def findNamed? {α : Type} (name : α → String) (as : List α) (s : String) : Option α :=
  as.find? fun a => name a == upper s

theorem findNamed?_eq_some {α : Type} {name : α → String} {as : List α} {s : String} {a : α}
    (h : findNamed? name as s = some a) : name a = upper s ∧ a ∈ as :=
  ⟨by simpa using List.find?_some h, List.mem_of_find?_eq_some h⟩

end Thumb.Text
