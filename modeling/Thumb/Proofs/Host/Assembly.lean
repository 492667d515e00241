import Thumb.Host.Assembly
import Thumb.Proofs.Feeding

/-! Lines assembled in place. A line is read and its label looked up before anything is changed, and
nothing fails after that, so that a line which is refused leaves the state as it was. -/
namespace Thumb
namespace Host
namespace Task

variable {α β : Type} {h h' : State} {x : Task α}

theorem bind_of_ok {a : α} (hx : x h = (.ok a, h')) (f : α → Task β) : (x >>= f) h = f a h' := by
  change ExceptT.bindCont f (x h).1 (x h).2 = _
  rw [hx]
  rfl

theorem bind_of_error {e : Error} (hx : x h = (.error e, h')) (f : α → Task β) :
    (x >>= f) h = (.error e, h') := by
  change ExceptT.bindCont f (x h).1 (x h).2 = _
  rw [hx]
  rfl

/-- The label is looked at before anything is changed. -/
theorem forLabel_requireNew (h : State) (e : Entry) :
    forLabel e requireNew h =
      (((h.program.append e).mapError Error.validation).map fun _ => (), h) := by
  unfold forLabel Program.append
  cases e.label with
  | none => rfl
  | some label =>
    dsimp only [requireNew]
    cases h.program.index? label <;> rfl

/-- Table and entries together make the entry the last of the program. -/
theorem push_eq (h : State) (e : Entry) :
    push e h = (.ok (), { h with program := h.program.push e }) := by
  unfold push forLabel Program.push
  cases e.label <;> rfl

end Task

namespace State

/-- A line changes nothing but the program, and that as the line is accepted or refused. -/
theorem evaluate_eq (h : State) (line : String) :
    h.evaluate line = ((h.program.accept h.bank.words.size line).map fun _ => (),
      { h with program := h.program.tried h.bank.words.size line }) := by
  -- the line is read and its label looked up before the state is changed
  cases he : Entry.parse h.bank.words.size line with
  | error err =>
    have hread : Task.read line h = (.error err, h) := by rw [Task.read, he]
    have haccept : h.program.accept h.bank.words.size line = .error err := by
      rw [Program.accept, he]
      rfl
    rw [evaluate, Task.assemble, Task.bind_of_error hread, Program.tried_of_error haccept, haccept]
    rfl
  | ok e =>
    have hread : Task.read line h = (.ok e, h) := by rw [Task.read, he]
    have haccept := Program.accept_of_parse (p := h.program) he
    have hlabel := Task.forLabel_requireNew h e
    rw [evaluate, Task.assemble, Task.bind_of_ok hread]
    cases happ : h.program.append e with
    | error err =>
      rw [happ] at hlabel haccept
      rw [Task.bind_of_error hlabel, Program.tried_of_error haccept, haccept]
      rfl
    | ok q =>
      rw [happ] at hlabel haccept
      rw [Task.bind_of_ok hlabel, Task.push_eq, Program.tried_of_ok haccept, haccept,
        Program.eq_push_of_append happ]
      rfl

end State
end Host
end Thumb
