import Thumb.Proofs.Host.Histories
import Thumb.Proofs.Verdicts

/-! Sessions: calls on a state that is changed in place, and what is said of the lines among them. A
line that is refused leaves the state as it was, though the table and the entries are changed one
after the other, so that the accepted lines make the program; and what is said of a line, and what it
makes, does not depend on the machine. -/
namespace Thumb
namespace Host

variable {s s' : Shape}

namespace State

def evaluateAll (h : State) (lines : List String) : State :=
  lines.foldl (fun h line => (h.evaluate line).2) h

def accepted (h : State) : List String → List String
  | [] => []
  | line :: lines =>
    match h.evaluate line with
    | (.ok _, h') => line :: h'.accepted lines
    | (.error _, h') => h'.accepted lines

/-- The verdict of a call, if it is on a line, and the state that the call leaves. -/
def call (h : State) : Call s → Option (Option (Except Error Unit) × State)
  | .assemble line => some (some (h.evaluate line).1, (h.evaluate line).2)
  | c => (h.after c).map fun h' => (none, h')

def session : State → List (Call s) → Option (List (Except Error Unit) × State)
  | h, [] => some ([], h)
  | h, c :: calls => do
    let (verdict, h') ← h.call c
    let (verdicts, last) ← session h' calls
    return (verdict.toList ++ verdicts, last)

theorem evaluateAll_eq (h : State) (lines : List String) :
    h.evaluateAll lines = { h with program := h.program.load h.bank.words.size lines } := by
  induction lines generalizing h with
  | nil => rfl
  | cons line lines ih =>
    rw [evaluateAll, List.foldl_cons, evaluate_eq]
    exact ih _

theorem accepted_eq (h : State) (lines : List String) :
    h.accepted lines = h.program.accepted h.bank.words.size lines := by
  induction lines generalizing h with
  | nil => rfl
  | cons line lines ih =>
    rw [accepted, Program.accepted, evaluate_eq]
    cases haccept : h.program.accept h.bank.words.size line with
    | error e =>
      rw [Program.tried_of_error haccept]
      exact ih h
    | ok q =>
      rw [Program.tried_of_ok haccept]
      exact congrArg _ (ih { h with program := q })

/-- A line that is refused leaves the state as it was; one that is accepted adds its entry. -/
theorem evaluate_cases (h : State) (line : String) :
    (∃ e, h.evaluate line = (.error e, h) ∧ e.kind ≠ .config) ∨
      ∃ entry, entry.source = line ∧
        h.evaluate line = (.ok (), { h with program := h.program.push entry }) := by
  rw [evaluate_eq]
  cases haccept : h.program.accept h.bank.words.size line with
  | error e =>
    rw [Program.tried_of_error haccept]
    exact .inl ⟨e, rfl, Program.kind_ne_config_of_accept haccept⟩
  | ok q =>
    obtain ⟨entry, hsource, rfl⟩ := Program.exists_entry_of_accept haccept
    rw [Program.tried_of_ok haccept]
    exact .inr ⟨entry, hsource, rfl⟩

end State

theorem call_embed (m : Machine s) (c : Call s) :
    (embed m).call c = some (c.line?.map m.verdict, embed (m.after c)) := by
  cases c with
  | assemble line =>
    rw [State.call, State.evaluate_eq, size_embed, Call.line?, Option.map_some,
      Machine.verdict_eq, Machine.after_assemble]
    rfl
  | step | run | execute | edit =>
    change Option.map _ ((embed m).after _) = _
    rw [after_embed]
    rfl

/-- A session says of the lines what is to be said of them alone, and otherwise does what the calls
do. -/
theorem session_embed (m : Machine s) (calls : List (Call s)) :
    (embed m).session calls =
      some (m.program.verdicts s.registerCount (calls.filterMap Call.line?),
        embed (m.afterAll calls)) := by
  induction calls generalizing m with
  | nil => rfl
  | cons c calls ih =>
    rw [State.session, call_embed]
    simp only [Option.bind_eq_bind, Option.bind_some, ih, Machine.afterAll_cons, Option.pure_def,
      Option.some.injEq, Prod.mk.injEq, and_true]
    -- the verdicts to come depend on the call through the program it leaves
    cases c with
    | assemble line =>
      rw [Machine.after_assemble, Call.line?, Option.map_some, Machine.verdict_eq]
      rfl
    | step | run | execute | edit =>
      rw [Machine.program_after_of_line?_eq_none m rfl]
      rfl

/-- Refused lines leave no trace, and the sources of a program make it again. On whatever calls have
made of a new machine, a line that is refused, which no line is for the configuration, changes
nothing, and one that is accepted adds one entry with the line as its source and changes nothing
else. So lines leave what the accepted ones among them leave, and the sources of the program, tried on
a new machine of any configuration, are all accepted and make the same program. -/
theorem refusals_leave_no_trace {c : Config} (hc : c.shape = .ok s) (calls : List (Call s)) :
    ∃ verdicts h, (State.new c).session calls = some (verdicts, h) ∧
      (∀ line, (∃ e, h.evaluate line = (.error e, h) ∧ e.kind ≠ .config) ∨
        ∃ entry, entry.source = line ∧
          h.evaluate line = (.ok (), { h with program := h.program.push entry })) ∧
      (∀ lines, h.evaluateAll (h.accepted lines) = h.evaluateAll lines ∧
        h.accepted (h.accepted lines) = h.accepted lines) ∧
      ∀ (c' : Config) (s' : Shape), c'.shape = .ok s' →
        (State.new c').accepted h.program.sources = h.program.sources ∧
        ((State.new c').evaluateAll h.program.sources).program = h.program := by
  refine ⟨_, _, by rw [new_eq_embed hc, session_embed], ?_, ?_, ?_⟩
  · intro line
    exact State.evaluate_cases _ line
  · intro lines
    simp only [State.evaluateAll_eq, State.accepted_eq, Program.load_accepted,
      Program.accepted_accepted, and_self]
  · intro c' s' hc'
    rw [new_eq_embed hc', State.evaluateAll_eq, State.accepted_eq, size_embed]
    have hp : (embed ((Machine.new s).afterAll calls)).program =
        Program.empty.load s'.registerCount (calls.filterMap Call.line?) :=
      (Machine.program_afterAll _ calls).trans
        (Program.load_congr s.sixteen_le s'.sixteen_le _ _)
    rw [hp]
    exact Program.replay_load s'.registerCount _

/-- Lines on a machine of sixteen bits, of which the second and the third are refused. -/
def refusing : List (Call (.architectural .w16)) :=
  [.assemble "loop SUBS R0, R0, #1", .assemble "loop NOP", .assemble " MOV R17, R0", .step,
    .assemble " BNE loop ; again"]

theorem refusals_leave_no_trace_refusing :
    Config.shape { bitWidth := 16 } = .ok (.architectural .w16) ∧ ∃ verdicts h,
      (State.new { bitWidth := 16 }).session refusing = some (verdicts, h) ∧
      (∃ e, h.evaluate "loop NOP" = (.error e, h)) ∧
      h.evaluateAll [" NOP"] = h.evaluateAll [" NOP", "loop NOP", " MOV R17, R0"] ∧
      h.program.sources = ["loop SUBS R0, R0, #1", " BNE loop ; again"] ∧
      ((State.new { registerCount := 40 }).evaluateAll h.program.sources).program = h.program := by
  have hc : Config.shape { bitWidth := 16 } = .ok (.architectural .w16) := rfl
  have hc' : Config.shape { registerCount := 40 } = .ok ⟨.w32, 40, by decide⟩ := rfl
  obtain ⟨verdicts, h, hsession, hline, hlines, hreplay⟩ := refusals_leave_no_trace hc refusing
  obtain rfl : embed ((Machine.new _).afterAll refusing) = h := by
    rw [new_eq_embed hc, session_embed] at hsession
    cases hsession
    rfl
  obtain ⟨hrefused, haccepted, hsources⟩ :
      ((embed ((Machine.new _).afterAll refusing)).evaluate "loop NOP").1.toOption = none ∧
      (embed ((Machine.new _).afterAll refusing)).accepted [" NOP", "loop NOP", " MOV R17, R0"] =
        [" NOP"] ∧
      (embed ((Machine.new _).afterAll refusing)).program.sources =
        ["loop SUBS R0, R0, #1", " BNE loop ; again"] := by decide +kernel
  refine ⟨hc, verdicts, _, hsession, ?_, ?_, hsources, (hreplay _ _ hc').2⟩
  · rcases hline "loop NOP" with ⟨e, he, -⟩ | ⟨entry, -, he⟩
    · exact ⟨e, he⟩
    · rw [he] at hrefused
      cases hrefused
  · rw [← haccepted]
    exact (hlines _).1

/-- Assembling does not depend on the machine. Given the same lines, with any other calls between
them, new machines of two configurations accept the same lines, refuse the others at the same stage
and have the same program in the end. -/
theorem assembly_ignores_machine {c c' : Config} (hc : c.shape = .ok s) (hc' : c'.shape = .ok s')
    {calls : List (Call s)} {calls' : List (Call s')}
    (hlines : calls.filterMap Call.line? = calls'.filterMap Call.line?) :
    ∃ verdicts verdicts' h h', (State.new c).session calls = some (verdicts, h) ∧
      (State.new c').session calls' = some (verdicts', h') ∧
      verdicts.map (Except.mapError Error.kind) = verdicts'.map (Except.mapError Error.kind) ∧
      h.program = h'.program := by
  refine ⟨_, _, _, _, by rw [new_eq_embed hc, session_embed],
    by rw [new_eq_embed hc', session_embed], ?_, ?_⟩
  · rw [hlines]
    exact Program.verdicts_kind s.sixteen_le s'.sixteen_le _ _
  · change ((Machine.new s).afterAll calls).program = ((Machine.new s').afterAll calls').program
    rw [Machine.program_afterAll, Machine.program_afterAll, hlines]
    exact Program.load_congr s.sixteen_le s'.sixteen_le _ _

/-- The same lines on a wider machine with more registers, with other calls between them. -/
def refusingElsewhere : List (Call ⟨.w64, 40, by decide⟩) :=
  [.edit (.named "R17" 9), .assemble "loop SUBS R0, R0, #1", .run 3, .assemble "loop NOP",
    .execute (.move .r0 .pc), .assemble " MOV R17, R0", .assemble " BNE loop ; again"]

theorem assembly_ignores_machine_refusing :
    Config.shape { bitWidth := 16 } = .ok (.architectural .w16) ∧
    Config.shape { bitWidth := 64, registerCount := 40 } = .ok ⟨.w64, 40, by decide⟩ ∧
    refusing.filterMap Call.line? = refusingElsewhere.filterMap Call.line? ∧
    ∃ verdicts verdicts' h h', (State.new { bitWidth := 16 }).session refusing = some (verdicts, h) ∧
      (State.new { bitWidth := 64, registerCount := 40 }).session refusingElsewhere =
        some (verdicts', h') ∧
      verdicts.map (Except.mapError Error.kind) = verdicts'.map (Except.mapError Error.kind) ∧
      verdicts ≠ verdicts' ∧ h.program = h'.program := by
  have hc : Config.shape { bitWidth := 16 } = .ok (.architectural .w16) := rfl
  have hc' : Config.shape { bitWidth := 64, registerCount := 40 } = .ok ⟨.w64, 40, by decide⟩ := rfl
  have hlines : refusing.filterMap Call.line? = refusingElsewhere.filterMap Call.line? := rfl
  obtain ⟨verdicts, verdicts', h, h', hs, hs', hkind, hprogram⟩ :=
    assembly_ignores_machine hc hc' hlines
  refine ⟨hc, hc', hlines, verdicts, verdicts', h, h', hs, hs', hkind, ?_, hprogram⟩
  rw [new_eq_embed hc, session_embed] at hs
  rw [new_eq_embed hc', session_embed] at hs'
  cases hs
  cases hs'
  decide +kernel

end Host
end Thumb
