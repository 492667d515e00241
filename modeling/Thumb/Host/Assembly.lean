import Thumb.Host.State

/-! Lines assembled in place. The table of labels and the entries are changed one after the other, and
a refusal ends the call with the state as it is by then. -/
namespace Thumb
namespace Host

/-- Something done to a state that can be refused, and then the state is as it is at that point. -/
abbrev Task (α : Type) : Type := ExceptT Error (StateM State) α

namespace Task

/-- What a line makes is looked at with the number of registers that the bank has. -/
def read (line : String) : Task Entry := fun h => (Entry.parse h.bank.words.size line, h)

/-- Refuses a label that the table has. -/
def requireNew (label : String) : Task Unit := fun h =>
  (match h.program.index? label with
    | some i => .error (.validation (.labelDefined label i))
    | none => .ok (), h)

/-- Makes a label point to the entry that comes next. -/
def insertLabel (label : String) : Task Unit := fun h =>
  (.ok (), { h with program.labels := (label, h.program.entries.size) :: h.program.labels })

def pushEntry (e : Entry) : Task Unit := fun h =>
  (.ok (), { h with program.entries := h.program.entries.push e })

/-- Does something about the label of an entry, if it has one. -/
def forLabel (e : Entry) (f : String → Task Unit) : Task Unit :=
  match e.label with
  | some label => f label
  | none => pure ()

def push (e : Entry) : Task Unit := do
  forLabel e insertLabel
  pushEntry e

def assemble (line : String) : Task Unit := do
  let e ← read line
  forLabel e requireNew
  push e

end Task

/-- The verdict on a line, and the state that assembling it leaves. -/
def State.evaluate (h : State) (line : String) : Except Error Unit × State := Task.assemble line h

end Host
end Thumb
