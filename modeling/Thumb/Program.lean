import Thumb.Instruction.Decode
import Thumb.SourceLine

/-! Programs: the lines accepted so far, in order, each with its label and its instruction, and beside
them a table of the labels. A label stands for the index of the line it is written on. -/
namespace Thumb

structure Entry where
  source : String
  label : Option String
  mnemonic : Mnemonic
  instruction : Instruction
  deriving DecidableEq

/-- The entry that a line makes on a machine with the given number of registers. -/
def Entry.parse (registerCount : Nat) (line : String) : Except Error Entry := do
  let parts ← (SourceLine.parse line).mapError .parsing
  match Mnemonic.ofName? parts.mnemonic with
  | none => throw (.validation (.unsupported parts.mnemonic))
  | some m =>
    let texts ← (SourceLine.operandTexts m.arity parts.operands).mapError .parsing
    let tokens ← (texts.mapM (Token.classify m.takesLabel)).mapError .parsing
    let instruction ← (Instruction.decode m registerCount tokens).mapError .rule
    return ⟨line, parts.label, m, instruction⟩

/-- The accepted lines, and what each label stands for; of two rows for one label the first counts. -/
structure Program where
  entries : Array Entry
  labels : List (String × Nat)
  deriving DecidableEq

namespace Program

def empty : Program := ⟨#[], []⟩

def size (p : Program) : Nat := p.entries.size

def get? (p : Program) (i : Nat) : Option Entry := p.entries[i]?

def index? (p : Program) (label : String) : Option Nat := p.labels.lookup label

/-- The program with an entry after the others, to which its label is made to point. -/
def push (p : Program) (e : Entry) : Program :=
  ⟨p.entries.push e, match e.label with
    | none => p.labels
    | some label => (label, p.entries.size) :: p.labels⟩

/-- The program with an entry after the others, whose label must be new. -/
def append (p : Program) (e : Entry) : Except NameError Program :=
  match e.label with
  | none => .ok (p.push e)
  | some label =>
    match p.index? label with
    | none => .ok (p.push e)
    | some i => .error (.labelDefined label i)

/-- The program with a line added, if the line is accepted. -/
def accept (p : Program) (registerCount : Nat) (line : String) : Except Error Program := do
  let entry ← Entry.parse registerCount line
  (p.append entry).mapError .validation

@[simp] theorem size_empty : empty.size = 0 := rfl

@[simp] theorem get?_empty (i : Nat) : empty.get? i = none := rfl

@[simp] theorem size_push (p : Program) (e : Entry) : (p.push e).size = p.size + 1 := by
  simp [push, size]

@[simp] theorem get?_push_size (p : Program) (e : Entry) : (p.push e).get? p.size = some e := by
  simp [push, get?, size]

theorem get?_push_of_lt {p : Program} {i : Nat} (h : i < p.size) (e : Entry) :
    (p.push e).get? i = p.get? i := by
  simp only [push, get?, Array.getElem?_push]
  exact if_neg (Nat.ne_of_lt h)

/-- An accepted entry is the only thing that an accepted line adds. -/
theorem eq_push_of_append {p q : Program} {e : Entry} (h : p.append e = .ok q) : q = p.push e := by
  unfold append at h
  split at h
  · cases h
    rfl
  · split at h
    · cases h
      rfl
    · cases h

theorem accept_of_parse {p : Program} {registerCount : Nat} {line : String} {e : Entry}
    (h : Entry.parse registerCount line = .ok e) :
    p.accept registerCount line = (p.append e).mapError .validation := by
  rw [accept, h]
  rfl

theorem get?_eq_none_iff {p : Program} {i : Nat} : p.get? i = none ↔ p.size ≤ i := by
  simp [get?, size]

@[simp] theorem index?_empty (label : String) : empty.index? label = none := rfl

/-- An entry added last takes its own label, whatever that stood for, and leaves the others. -/
theorem index?_push (p : Program) (e : Entry) (label : String) :
    (p.push e).index? label = if e.label = some label then some p.size else p.index? label := by
  unfold push index? size
  split
  · next h => simp [h]
  · next own h =>
    rw [h, List.lookup_cons]
    by_cases hl : label = own
    · simp [hl]
    · rw [beq_false_of_ne hl]
      simp [Ne.symm hl]

end Program
end Thumb
