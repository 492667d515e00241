import Thumb.Proofs.DecodeTable
import Thumb.Proofs.Feeding

/-! What becomes of lines depends on the lines alone. Whether one is accepted, at which stage it is
refused if not, and what it adds to the program are the same whatever the number of registers, since
no operand may be a register beyond `R15`; and the accepted lines alone make the same program. -/
namespace Thumb

/-- A line is refused for its form, for a name in it, or for its operands. -/
theorem Entry.kind_ne_config_of_parse {count : ℕ} {line : String} {e : Error}
    (h : Entry.parse count line = .error e) : e.kind ≠ .config := by
  obtain h | ⟨parts, -, h⟩ := bind_eq_error_iff.mp h
  · obtain ⟨_, -, rfl⟩ := mapError_eq_error_iff.mp h
    simp [Error.kind]
  cases hm : Mnemonic.ofName? parts.mnemonic with
  | none =>
    simp only [hm] at h
    cases h
    simp [Error.kind]
  | some m =>
    simp only [hm, bind_eq_error_iff, mapError_eq_error_iff] at h
    obtain ⟨_, -, rfl⟩ | ⟨_, -, ⟨_, -, rfl⟩ | ⟨_, -, ⟨_, -, rfl⟩ | ⟨_, -, h⟩⟩⟩ := h
    · simp [Error.kind]
    · simp [Error.kind]
    · simp [Error.kind]
    · cases h

theorem Program.kind_ne_config_of_accept {p : Program} {count : ℕ} {line : String} {e : Error}
    (h : p.accept count line = .error e) : e.kind ≠ .config := by
  obtain h | ⟨entry, -, h⟩ := bind_eq_error_iff.mp h
  · exact Entry.kind_ne_config_of_parse h
  · obtain ⟨_, -, rfl⟩ := mapError_eq_error_iff.mp h
    simp [Error.kind]

section Counts

variable {count count' : ℕ} (hcount : 16 ≤ count) (hcount' : 16 ≤ count')
include hcount hcount'

/-- On any machine a line makes the same entry, or is refused at the same stage. -/
theorem Entry.parse_kind (line : String) :
    (Entry.parse count line).mapError Error.kind = (Entry.parse count' line).mapError Error.kind := by
  -- only decoding looks at the number of registers
  refine mapError_bind_congr fun parts _ => ?_
  cases Mnemonic.ofName? parts.mnemonic with
  | none => rfl
  | some m =>
    refine mapError_bind_congr fun texts _ => mapError_bind_congr fun tokens htokens => ?_
    have ht : ∀ t ∈ tokens, t.IsClassified := by
      intro t hmem
      have hall := mapM_eq_ok_iff.mp (mapError_eq_ok_iff.mp htokens)
      exact ⟨m.takesLabel, exists_of_mem_results hall hmem⟩
    have hdecode (i : Instruction) :
        Instruction.decode m count tokens = .ok i ↔ Instruction.decode m count' tokens = .ok i :=
      (Instruction.decode_eq_ok_iff hcount ht).trans (Instruction.decode_eq_ok_iff hcount' ht).symm
    rw [mapError_bind, mapError_bind, mapError_mapError, mapError_mapError]
    exact congrArg (· >>= _) (mapError_const_congr Error.Kind.rule hdecode)

namespace Program

theorem accept_kind (p : Program) (line : String) :
    (p.accept count line).mapError Error.kind = (p.accept count' line).mapError Error.kind := by
  rw [accept, accept, mapError_bind, mapError_bind, Entry.parse_kind hcount hcount']

theorem toOption_accept (p : Program) (line : String) :
    (p.accept count line).toOption = (p.accept count' line).toOption := by
  rw [← toOption_mapError _ Error.kind, accept_kind hcount hcount', toOption_mapError]

theorem tried_congr (p : Program) (line : String) : p.tried count line = p.tried count' line := by
  rw [tried, tried, toOption_accept hcount hcount']

end Program
end Counts

namespace Program

/-- The program that is left when lines have been tried one after another. -/
def load (count : ℕ) (p : Program) (lines : List String) : Program :=
  lines.foldl (fun p line => p.tried count line) p

@[simp] theorem load_nil (count : ℕ) (p : Program) : p.load count [] = p := rfl

@[simp] theorem load_cons (count : ℕ) (p : Program) (line : String) (lines : List String) :
    p.load count (line :: lines) = (p.tried count line).load count lines := rfl

def verdicts (count : ℕ) (p : Program) : List String → List (Except Error Unit)
  | [] => []
  | line :: lines =>
    ((p.accept count line).map fun _ => ()) :: verdicts count (p.tried count line) lines

def accepted (count : ℕ) (p : Program) : List String → List String
  | [] => []
  | line :: lines =>
    match p.accept count line with
    | .ok q => line :: accepted count q lines
    | .error _ => accepted count p lines

def sources (p : Program) : List String := p.entries.toList.map Entry.source

variable {count : ℕ} {p q : Program} {line : String}

theorem load_accepted (count : ℕ) (p : Program) (lines : List String) :
    p.load count (p.accepted count lines) = p.load count lines := by
  induction lines generalizing p with
  | nil => rfl
  | cons line lines ih =>
    cases h : p.accept count line with
    | error e => simpa [accepted, h, tried_of_error h] using ih p
    | ok q => simpa [accepted, h, tried_of_ok h] using ih q

theorem accepted_accepted (count : ℕ) (p : Program) (lines : List String) :
    p.accepted count (p.accepted count lines) = p.accepted count lines := by
  induction lines generalizing p with
  | nil => rfl
  | cons line lines ih =>
    cases h : p.accept count line with
    | error e => simpa [accepted, h] using ih p
    | ok q => simpa [accepted, h] using ih q

theorem exists_entry_of_accept (h : p.accept count line = .ok q) :
    ∃ e, e.source = line ∧ q = p.push e := by
  obtain ⟨e, he, happ⟩ := bind_eq_ok_iff.mp h
  exact ⟨e, (Entry.parse_eq_ok_iff.mp he).1, eq_push_of_append (mapError_eq_ok_iff.mp happ)⟩

theorem sources_load (count : ℕ) (p : Program) (lines : List String) :
    (p.load count lines).sources = p.sources ++ p.accepted count lines := by
  induction lines generalizing p with
  | nil => simp [accepted]
  | cons line lines ih =>
    cases h : p.accept count line with
    | error e => simpa [accepted, h, tried_of_error h] using ih p
    | ok q =>
      obtain ⟨e, rfl, rfl⟩ := exists_entry_of_accept h
      have hpush : (p.push e).sources = p.sources ++ [e.source] := by simp [sources, push]
      simpa [accepted, h, tried_of_ok h, hpush] using ih (p.push e)

/-- The sources of a program that lines made are accepted and make it again. -/
theorem replay_load (count : ℕ) (lines : List String) :
    empty.accepted count (empty.load count lines).sources = (empty.load count lines).sources ∧
      empty.load count (empty.load count lines).sources = empty.load count lines := by
  have hsources : (empty.load count lines).sources = empty.accepted count lines :=
    sources_load count empty lines
  rw [hsources]
  exact ⟨accepted_accepted count empty lines, load_accepted count empty lines⟩

section Counts

variable {count' : ℕ} (hcount : 16 ≤ count) (hcount' : 16 ≤ count')
include hcount hcount'

theorem load_congr (p : Program) (lines : List String) :
    p.load count lines = p.load count' lines := by
  induction lines generalizing p with
  | nil => simp
  | cons line lines ih => rw [load_cons, load_cons, tried_congr hcount hcount' p line, ih]

/-- Lines are judged alike on all machines, but for the words of the refusals. -/
theorem verdicts_kind (p : Program) (lines : List String) :
    (p.verdicts count lines).map (Except.mapError Error.kind) =
      (p.verdicts count' lines).map (Except.mapError Error.kind) := by
  induction lines generalizing p with
  | nil => rfl
  | cons line lines ih =>
    simp only [verdicts, List.map_cons, mapError_map]
    rw [accept_kind hcount hcount' p line, tried_congr hcount hcount' p line, ih]

end Counts
end Program

namespace Machine

variable {s : Shape}

/-- Whatever else is done to a machine, its program is made of the lines it is given. -/
theorem program_afterAll (m : Machine s) (calls : List (Call s)) :
    (m.afterAll calls).program = m.program.load s.registerCount (calls.filterMap Call.line?) := by
  induction calls generalizing m with
  | nil => simp
  | cons call calls ih =>
    rw [afterAll_cons, ih]
    cases call with
    | assemble line =>
      rw [after_assemble]
      rfl
    | step | run | execute | edit =>
      rw [program_after_of_line?_eq_none m rfl]
      rfl

end Machine
end Thumb
